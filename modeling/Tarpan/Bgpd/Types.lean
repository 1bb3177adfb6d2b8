/-
The records the daemon passes around: Tarpan messages, path attributes, peers and the BGP instance
(bgp_attr.h, bgp_tarpan.h, attr_tarpan.proto, bgpd.h). Interned values other than `struct tarpan`
stand for themselves; a `struct tarpan` and its message have addresses, which the code compares.
-/
import Tarpan.Base.Packing
import Tarpan.Bgpd.Aspath.Basic
import Tarpan.Lib.Prefix
import Tarpan.Lib.Sockunion

namespace Tarpan.Bgpd

open Lib

/-! ## Tarpan messages -/

/-- A field as it comes: its tag, how it is coded, and its octets. -/
structure WireField where
  tag : UInt32
  wireType : UInt8
  data : List UInt8
  deriving DecidableEq

/-- The fields whose tags a reader does not know. -/
structure Unknown (known : List UInt32) where
  fields : List WireField
  tag_notMem : ∀ f ∈ fields, f.tag ∉ known
  deriving DecidableEq

def Unknown.none {known : List UInt32} : Unknown known := ⟨[], by simp⟩

/-- An address in the memory of the process. -/
abbrev Addr := UInt64

/-- The message `IPAddress`. The library keeps the fields it does not know with every message. -/
structure IPAddress where
  bytes : UInt32
  unknown : Unknown [1] := .none
  deriving DecidableEq

/-- The message `Wiser`. -/
structure Wiser where
  pathCost : UInt32
  senderAs : UInt32
  senderAddress : IPAddress
  unknown : Unknown [64, 65, 66] := .none
  deriving DecidableEq

/-- The message `Pathlets`. -/
structure Pathlets where
  meow : List Int32
  unknown : Unknown [1] := .none
  deriving DecidableEq

/-- The message `TarpanMsg`; `unknown` are the fields of protocols this speaker does not know. -/
structure TarpanMsg where
  version : UInt32
  wiser : Option Wiser := none
  pathlets : Option Pathlets := none
  unknown : Unknown [1, 32, 33] := .none
  deriving DecidableEq

/-- `struct tarpan` at its address, without the count of its references. -/
structure TarpanAttr where
  addr : Addr
  message : Option Addr
  deriving DecidableEq

/-- The messages in memory. -/
abbrev Messages := Addr → Option TarpanMsg

/-- `tarpan->message->wiser`, where all three are there. -/
def TarpanAttr.wiser (messages : Messages) (tarpan : TarpanAttr) : Option Wiser :=
  (tarpan.message.bind messages).bind (·.wiser)

/-! ## Path attributes -/

/-- The path attributes of bgpd.h that the code names. -/
inductive BgpAttr where
  | origin | asPath | nextHop | multiExitDisc | localPref | atomicAggregate | aggregator
  | communities | originatorId | clusterList | mpReachNlri | mpUnreachNlri | extCommunities
  | as4Path | as4Aggregator | tarpan | asPathlimit
  deriving DecidableEq, Repr

/-- The type code of an attribute on the wire. -/
def BgpAttr.code : BgpAttr → UInt8
  | .origin => 1
  | .asPath => 2
  | .nextHop => 3
  | .multiExitDisc => 4
  | .localPref => 5
  | .atomicAggregate => 6
  | .aggregator => 7
  | .communities => 8
  | .originatorId => 9
  | .clusterList => 10
  | .mpReachNlri => 14
  | .mpUnreachNlri => 15
  | .extCommunities => 16
  | .as4Path => 17
  | .as4Aggregator => 18
  | .tarpan => 19
  | .asPathlimit => 21

/-- `ATTR_FLAG_BIT`. -/
def BgpAttr.flagBit (a : BgpAttr) : UInt32 := 1 <<< (a.code.toUInt32 - 1)

/-- The address `::`, which new memory holds. -/
def in6addrAny : In6Addr := ⟨List.replicate 16 0, rfl⟩

/-- `struct attr_extra`. -/
structure AttrExtra where
  mpNexthopGlobal : In6Addr := in6addrAny
  mpNexthopLocal : In6Addr := in6addrAny
  ecommunity : Option (List (List UInt8)) := none
  cluster : Option (List UInt32) := none
  transit : Option (List UInt8) := none
  mpNexthopGlobalIn : UInt32 := 0
  mpNexthopLocalIn : UInt32 := 0
  aggregatorAddr : UInt32 := 0
  originatorId : UInt32 := 0
  weight : UInt32 := 0
  aggregatorAs : UInt32 := 0
  mpNexthopLen : UInt8 := 0
  deriving DecidableEq

/-- `struct attr`; IPv4 addresses are numbers in host order. -/
structure Attr where
  aspath : Option Aspath := none
  community : Option (List UInt32) := none
  tarpan : Option TarpanAttr := none
  extra : Option AttrExtra := none
  flag : UInt32 := 0
  nexthop : UInt32 := 0
  med : UInt32 := 0
  localPref : UInt32 := 0
  origin : UInt8 := 0
  deriving DecidableEq

/-- `attr->flag & ATTR_FLAG_BIT (a)`. -/
def Attr.has (attr : Attr) (a : BgpAttr) : Bool := attr.flag &&& a.flagBit != 0

/-! ## The instance and its peers -/

/-- `bgp_peer_sort_t`. -/
inductive PeerSort where
  | ibgp | ebgp | internal | confed
  deriving DecidableEq

/-- The flags of an instance that are read here. -/
inductive BgpFlag where
  | alwaysCompareMed | deterministicMed | medMissingAsWorst | medConfed
  | compareRouterId | aspathIgnore | aspathConfed | aspathMultipathRelax | enforceFirstAs
  deriving DecidableEq

/-- `struct bgp`. -/
structure Bgp where
  as : UInt32 := 0
  routerId : UInt32 := 0
  defaultLocalPref : UInt32 := 100
  flagCheck : BgpFlag → Bool := fun _ => false

/-- The states of the finite state machine of a peer. -/
inductive BgpStatus where
  | idle | connect | active | openSent | openConfirm | established | clearing | deleted
  deriving DecidableEq

/-- The capabilities of a peer that are read here. -/
inductive PeerCap where
  | restartRcv | as4Rcv
  deriving DecidableEq

/-- `struct peer`; router ids in host order. `localAsNoPrepend` is the flag
`PEER_FLAG_LOCAL_AS_NO_PREPEND`. -/
structure Peer where
  as : UInt32
  sort : PeerSort
  remoteId : UInt32
  suRemote : Sockunion
  status : BgpStatus := .idle
  cap : PeerCap → Bool := fun _ => false
  changeLocalAs : UInt32 := 0
  localAsNoPrepend : Bool := false
  afc : Afi → Safi → Bool := fun _ _ => false
  nsf : Afi → Safi → Bool := fun _ _ => false

end Tarpan.Bgpd
