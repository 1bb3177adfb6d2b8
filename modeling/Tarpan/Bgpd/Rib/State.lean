/-
The routing table of bgpd (bgpd/bgp_route.c, bgpd/bgp_route.h): paths with their flags at the nodes of the tables, the
number of prefixes of each peer, the damping records and the configured aggregates. Paths and records are in memory at
addresses; `none` is the end of the process, an assertion or a pointer to nothing.
-/
import Tarpan.Bgpd.Route.Compare
import Tarpan.Lib.PrefixBits

namespace Tarpan.Bgpd

open Lib Function

/-- The flags of `struct bgp_info` that are read here. -/
inductive PathFlag where
  | damped | history | selected | valid | attrChanged | stale | removed | counted
  deriving DecidableEq

/-- `bgp_table_type_t`; the table of a route server client has an owner. -/
inductive BgpTableType where
  | main
  | rsclient (owner : Nat)
  deriving DecidableEq

/-- A node of a table; VPN tables are by route distinguisher. -/
structure RibNode where
  table : BgpTableType := .main
  afi : Afi
  safi : Safi
  rd : Option (List UInt8) := none
  p : Prefix afi
  deriving DecidableEq

/-- The type of the node's table is `BGP_TABLE_MAIN`. The table of a route distinguisher has it also below that of a
client, since `bgp_afi_node_get` makes it by `bgp_table_init`. -/
def RibNode.InMain (rn : RibNode) : Prop := rn.table = .main ∨ rn.safi = .mplsVpn

instance (rn : RibNode) : Decidable rn.InMain := inferInstanceAs (Decidable (_ ∨ _))

/-- A node of a main table, which has a route distinguisher only for VPN. -/
def RibNode.OfMain (rn : RibNode) : Prop := rn.table = .main ∧ (rn.safi ≠ .mplsVpn → rn.rd = none)

/-- `struct bgp_info_extra`. -/
structure PathExtra where
  dampInfo : Option Nat := none
  suppress : Int := 0
  igpmetric : UInt32 := 0

/-- `struct bgp_info`, with the node that it is at. -/
structure BgpPath (α : Type) where
  peer : Nat
  type : UInt8
  subType : RouteSubType
  attr : α
  rn : RibNode
  extra : Option PathExtra := none
  flags : PathFlag → Bool := fun _ => false

/-- `BGP_RECORD_UPDATE` and `BGP_RECORD_WITHDRAW`. -/
inductive DampRecord where
  | update | withdraw
  deriving DecidableEq

/-- `struct bgp_damp_info`. -/
structure DampInfo where
  next : Option Nat := none
  prev : Option Nat := none
  penalty : Nat
  flap : Nat := 1
  startTime : Int
  tUpdated : Int
  suppressTime : Int := 0
  binfo : Nat
  rn : RibNode
  index : Int := -1
  lastrecord : DampRecord := .withdraw

/-- The lists of `struct bgp_damp_config`, and the memory of the records. -/
structure DampLists where
  info : Nat → Option DampInfo := fun _ => none
  reuseList : Nat → Option Nat := fun _ => none
  reuseOffset : Nat := 0
  noReuseList : Option Nat := none

/-- `struct bgp_aggregate`. -/
structure BgpAggregate where
  summaryOnly : Bool
  asSet : Bool
  count : UInt64 := 0

/-- Everything that the functions on paths change. `nodes` are the nodes with paths, `info` is `rn->info`;
`aggregateNodes` are the nodes with an aggregate, in the order of a walk from a prefix up to the top. New memory starts
at `brk`. -/
structure Rib (α : Type) where
  path : Nat → Option (BgpPath α) := fun _ => none
  nodes : List RibNode := []
  info : RibNode → List Nat := fun _ => []
  pcount : Nat → Afi → Safi → Int := fun _ _ _ => 0
  brk : Nat := 0
  damp : DampLists := {}
  aggregateNodes : List RibNode := []
  aggregate : RibNode → Option BgpAggregate := fun _ => none

/-- What the parameters of `bgp_damp_parameter_set` come to. The tables hold doubles; the expressions over them are
functions here. -/
structure DampConfig where
  suppressValue : Nat
  reuseLimit : Nat
  reuseLimit_pos : 0 < reuseLimit
  maxSuppressTime : Int
  ceiling : Nat
  decayArraySize : Nat
  /-- `penalty * damp->decay_array[i]`. -/
  decayed : Nat → Nat → Nat
  reuseIndexSize : Nat
  /-- `((double) penalty / damp->reuse_limit - 1.0) * damp->scale_factor`. -/
  scaled : Nat → Int
  reuseIndex : Nat → Int
  reuseListSize : Nat
  reuseListSize_pos : 0 < reuseListSize

/-- What is configured: the peers, `bgp->peer_self` and damping. -/
structure RibEnv (α : Type) where
  peerSelf : Nat
  sort : Nat → PeerSort
  ttl : Nat → UInt8
  disableConnectedCheck : Nat → Bool
  dampening : Afi → Safi → Bool
  damp : DampConfig
  /-- `bgp_attr_aggregate_intern` with what the paths are merged to. -/
  aggregateAttr : Bool → List α → α

section Paths
variable {α : Type}

/-- `BGP_INFO_HOLDDOWN`. -/
def BgpPath.holddown (ri : BgpPath α) : Bool :=
  !ri.flags .valid || (ri.flags .history || ri.flags .damped || ri.flags .removed)

namespace BgpPath

/-- `SET_FLAG` and `UNSET_FLAG`. -/
def setFlags (ri : BgpPath α) (mask : List PathFlag) (b : Bool) : BgpPath α :=
  { ri with flags := fun f => if f ∈ mask then b else ri.flags f }

/-- `bgp_info_extra_get`. -/
def getExtra (ri : BgpPath α) : PathExtra := ri.extra.getD {}
def dampInfo (ri : BgpPath α) : Option Nat := ri.extra.bind (·.dampInfo)
def suppress (ri : BgpPath α) : Int := ri.getExtra.suppress

end BgpPath

/-- The flags of `BGP_INFO_VALID|BGP_INFO_UNUSEABLE`. -/
def PathFlag.useability : PathFlag → Bool
  | .valid | .history | .damped | .removed => true
  | _ => false

namespace Rib

def putPath (s : Rib α) (a : Nat) (ri : BgpPath α) : Rib α := { s with path := update s.path a (some ri) }

def modifyPath (s : Rib α) (a : Nat) (f : BgpPath α → BgpPath α) : Option (Rib α) :=
  (s.path a).map fun ri => s.putPath a (f ri)

def setPcount (s : Rib α) (peer : Nat) (afi : Afi) (safi : Safi) (n : Int) : Rib α :=
  { s with pcount := fun q i j => if q = peer ∧ i = afi ∧ j = safi then n else s.pcount q i j }

end Rib

variable (env : RibEnv α)

section
variable (s : Rib α) (a : Nat) (mask : List PathFlag)

def bgpPcountAdjust : Option (Rib α) := do
  let ri ← s.path a
  if ¬ ri.rn.InMain ∨ ri.peer = env.peerSelf then some s
  else if ri.holddown ∧ ri.flags .counted then
    let s := s.putPath a (ri.setFlags [.counted] false)
    some (s.setPcount ri.peer ri.rn.afi ri.rn.safi (s.pcount ri.peer ri.rn.afi ri.rn.safi - 1))
  else if ¬ ri.holddown ∧ ¬ ri.flags .counted then
    let s := s.putPath a (ri.setFlags [.counted] true)
    some (s.setPcount ri.peer ri.rn.afi ri.rn.safi (s.pcount ri.peer ri.rn.afi ri.rn.safi + 1))
  else some s

/-- The flags are changed, and the number of prefixes is adjusted where a flag is one that it goes by. -/
def bgpInfoPutFlags (b : Bool) : Option (Rib α) := do
  let s ← s.modifyPath a (·.setFlags mask b)
  if mask.any PathFlag.useability then bgpPcountAdjust env s a else some s

def bgpInfoSetFlag : Option (Rib α) := bgpInfoPutFlags env s a mask true
def bgpInfoUnsetFlag : Option (Rib α) := bgpInfoPutFlags env s a mask false

end

namespace Rib

def bgpInfoDelete (s : Rib α) (a : Nat) : Option (Rib α) := do
  let s ← bgpInfoSetFlag env s a [.removed]
  s.modifyPath a (·.setFlags [.valid] false)

def bgpInfoRestore (s : Rib α) (a : Nat) : Option (Rib α) := do
  let s ← bgpInfoUnsetFlag env s a [.removed]
  s.modifyPath a (·.setFlags [.valid] true)

/-- A node comes where it belongs in the order of a walk. -/
def insertNode (rn : RibNode) : List RibNode → List RibNode
  | [] => [rn]
  | n :: nodes => if n.p.bits < rn.p.bits then n :: insertNode rn nodes else rn :: n :: nodes

/-- `bgp_info_new`: memory for a path. -/
def bgpInfoNew (s : Rib α) (ri : BgpPath α) : Nat × Rib α := (s.brk, { s.putPath s.brk ri with brk := s.brk + 1 })

def bgpInfoAdd (s : Rib α) (a : Nat) : Option (Rib α) := do
  let ri ← s.path a
  some { s with
    nodes := if ri.rn ∈ s.nodes then s.nodes else insertNode ri.rn s.nodes
    info := update s.info ri.rn (a :: s.info ri.rn) }

/-- `bgp_info_reap`; the path is freed with its last lock. -/
def bgpInfoReap (s : Rib α) (a : Nat) : Option (Rib α) := do
  let ri ← s.path a
  some { s with info := update s.info ri.rn ((s.info ri.rn).erase a) }

end Rib

end Paths

end Tarpan.Bgpd
