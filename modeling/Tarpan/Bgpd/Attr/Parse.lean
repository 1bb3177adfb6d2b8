/-
The parser for the path attributes of an UPDATE (`bgp_attr_parse` and its handlers in bgp_attr.c).
A parser reads from the input buffer of the peer and changes the attributes, and what it has sent by
way of NOTIFICATION is kept with them. `none` is the end of the process: an assertion, a read past the
buffer, a null pointer. What is only logged is left out.
-/
import Tarpan.Bgpd.Aspath.Operations
import Tarpan.Bgpd.Community
import Tarpan.Bgpd.Tarpan.Handler

namespace Tarpan.Bgpd

open Base Lib List

/-! ## Results -/

/-- The sub codes of `BGP_NOTIFY_UPDATE_ERR`. -/
inductive UpdateErr where
  | malAttr | unrecAttr | missAttr | attrFlagErr | attrLengErr | invalOrigin | asRouteLoop | invalNextHop
  | optAttrErr | invalNetwork | malAsPath
  deriving DecidableEq, Repr

/-- A NOTIFICATION: `BGP_NOTIFY_FSM_ERR` with sub code 0, or `BGP_NOTIFY_UPDATE_ERR` with its data. -/
inductive Notification where
  | fsmErr
  | updateErr (err : UpdateErr) (data : List UInt8)
  deriving DecidableEq, Repr

/-- `bgp_attr_parse_ret_t`. -/
inductive AttrParseRet where
  | proceed | error | withdraw | errorNotifypls
  deriving DecidableEq, Repr

/-- `struct bgp_nlri`: the octets that `nlri` and `length` delimit. -/
structure BgpNlri where
  afi : UInt16 := 0
  safi : UInt8 := 0
  nlri : List UInt8 := []
  deriving DecidableEq

/-! ## The state of a parser -/

/-- What is fixed while an UPDATE is parsed: the peer, the active Tarpan protocol, the memory that a
new `struct tarpan` would get, and the octet that lies in memory behind `attr_flags_values`. -/
structure ParserEnv (σ : Type) where
  peer : Peer
  codec : TarpanCodec
  tarpanActiveHandler : Option (TarpanProtocolHandler σ)
  newTarpan : TarpanAttr
  behindFlagsValues : UInt8

/-- What a parser changes, with the local variables of `bgp_attr_parse`. -/
structure ParseState (σ : Type) where
  ibuf : Stream
  speaker : Speaker σ
  attr : Attr := { extra := some {} }
  mpUpdate : BgpNlri := {}
  mpWithdraw : BgpNlri := {}
  seen : UInt8 → Bool := fun _ => false
  as4Path : Option Aspath := none
  as4Aggregator : UInt32 := 0
  as4AggregatorAddr : UInt32 := 0
  notified : List Notification := []

abbrev AttrParser (σ : Type) := StateT (ParseState σ) Option

/-- `struct bgp_attr_parser_args`; `startp` is a position of the input buffer. -/
structure BgpAttrParserArgs where
  length : Nat
  type : UInt8
  flags : UInt8
  startp : Nat
  total : Nat

section AttrParser
variable {σ : Type} (env : ParserEnv σ) (args : BgpAttrParserArgs)

namespace AttrParser

/-- A read from the input buffer. -/
def read {α : Type} (f : Stream → Option (α × Stream)) : AttrParser σ α := fun st =>
  (f st.ibuf).map fun (a, ibuf) => (a, { st with ibuf })

def getc : AttrParser σ UInt8 := read streamGetc
def getw : AttrParser σ UInt16 := read streamGetw
def getl : AttrParser σ UInt32 := read streamGetl
def getIpv4 : AttrParser σ UInt32 := read streamGetIpv4
def get16 : AttrParser σ In6Addr := read fun s =>
  if h : (s.unread.take 16).length = 16 then some (⟨s.unread.take 16, h⟩, s.advance 16) else none
def forwardGetp (n : Nat) : AttrParser σ Unit := read fun s => (streamForwardGetp s n).map ((), ·)
def setGetp (pos : Nat) : AttrParser σ Unit := read fun s => (streamSetGetp s pos).map ((), ·)

/-- The position of the next octet, and the `n` octets from there. -/
def getp : AttrParser σ Nat := fun st => some (st.ibuf.getp, st)
def peek (n : Nat) : AttrParser σ (List UInt8) := fun st => some (st.ibuf.unread.take n, st)

/-- `bgp_notify_send_with_data`. -/
def notify (err : UpdateErr) (data : List UInt8) : AttrParser σ Unit :=
  modify fun st => { st with notified := st.notified ++ [.updateErr err data] }

def modifyAttr (f : Attr → Attr) : AttrParser σ Unit := modify fun st => { st with attr := f st.attr }

/-- A change of `*bgp_attr_extra_get (attr)`. -/
def modifyExtra (f : AttrExtra → AttrExtra) : AttrParser σ Unit :=
  modifyAttr fun attr => { attr with extra := some (f (attr.extra.getD {})) }

/-- `attr->flag |= ATTR_FLAG_BIT (a)`, with which a handler ends. -/
def setFlag (a : BgpAttr) : AttrParser σ AttrParseRet := do
  modifyAttr fun attr => { attr with flag := attr.flag ||| a.flagBit }
  return .proceed

end AttrParser

open AttrParser

/-! ## Malformed attributes -/

def bgpAttrFlagOptional : UInt8 := 0x80
def bgpAttrFlagTrans : UInt8 := 0x40
def bgpAttrFlagPartial : UInt8 := 0x20
def bgpAttrFlagExtlen : UInt8 := 0x10
def checkFlag (flags flag : UInt8) : Bool := flags &&& flag != 0

/-- The attribute with the type code `c`. -/
def BgpAttr.ofCode (c : UInt8) : Option BgpAttr :=
  [.origin, .asPath, .nextHop, .multiExitDisc, .localPref, .atomicAggregate, .aggregator, .communities, .originatorId,
    .clusterList, .mpReachNlri, .mpUnreachNlri, .extCommunities, .as4Path, .as4Aggregator, .tarpan,
    .asPathlimit].find? (·.code == c)

/-- `bgp_attr_malformed`: an eBGP peer's attribute is skipped, and the session may go on. -/
def bgpAttrMalformed (err : UpdateErr) (length : Nat) : AttrParser σ AttrParseRet := do
  let data := ((← get).ibuf.data.drop args.startp).take length
  if env.peer.sort ≠ .ebgp then
    notify err data
    return .error
  else
    setGetp (args.startp + args.total)
    match BgpAttr.ofCode args.type with
    | some .as4Aggregator | some .aggregator | some .atomicAggregate => return .proceed
    | some .origin | some .asPath | some .nextHop | some .multiExitDisc | some .localPref | some .communities
    | some .originatorId | some .clusterList | some .mpReachNlri | some .mpUnreachNlri | some .extCommunities =>
      notify err data
      return .error
    | _ =>
      if checkFlag args.flags bgpAttrFlagTrans && checkFlag args.flags bgpAttrFlagOptional
          && checkFlag args.flags bgpAttrFlagPartial then
        return .withdraw
      else
        return .errorNotifypls

/-- `attr_flags_values`; no flags where the table has no entry. -/
def attrFlagsValues (type : UInt8) : UInt8 :=
  match BgpAttr.ofCode type with
  | some .origin | some .asPath | some .nextHop | some .localPref | some .atomicAggregate => bgpAttrFlagTrans
  | some .multiExitDisc | some .originatorId | some .clusterList | some .mpReachNlri | some .mpUnreachNlri =>
    bgpAttrFlagOptional
  | some .aggregator | some .communities | some .extCommunities | some .as4Path | some .as4Aggregator =>
    bgpAttrFlagOptional ||| bgpAttrFlagTrans
  | _ => 0

/-- `attr_flags_values_max`: the number of entries, so one more than the last index. -/
def attrFlagsValuesMax : Nat := 19

/-- `bgp_attr_flag_invalid`. The bound lets the index `attr_flags_values_max` through, which lies
behind the table. -/
def bgpAttrFlagInvalid : Bool :=
  let value := if args.type.toNat < attrFlagsValuesMax then attrFlagsValues args.type else env.behindFlagsValues
  let optional := checkFlag args.flags bgpAttrFlagOptional
  let trans := checkFlag args.flags bgpAttrFlagTrans
  let isPartial := checkFlag args.flags bgpAttrFlagPartial
  if args.type.toNat > attrFlagsValuesMax then false
  else if value = 0 then false
  else if !optional && !trans then true
  else if isPartial && !optional then true
  else if isPartial && optional && !trans then true
  else
    let mask := if optional && trans then bgpAttrFlagExtlen ||| bgpAttrFlagPartial else bgpAttrFlagExtlen
    args.flags &&& ~~~ mask != value

/-! ## The handlers -/

def attrLengthErr : AttrParser σ AttrParseRet := bgpAttrMalformed env args .attrLengErr args.total

def bgpAttrOrigin : AttrParser σ AttrParseRet := do
  if args.length ≠ 1 then attrLengthErr env args
  else
    let origin ← getc
    modifyAttr fun attr => { attr with origin }
    if origin ≠ 0 ∧ origin ≠ 1 ∧ origin ≠ 2 then bgpAttrMalformed env args .invalOrigin args.total
    else setFlag .origin

def bgpAttrAspath : AttrParser σ AttrParseRet := do
  let aspath ← read fun s => aspathParse s args.length (env.peer.cap .as4Rcv)
  modifyAttr fun attr => { attr with aspath }
  if aspath.isNone then bgpAttrMalformed env args .malAsPath 0
  else setFlag .asPath

def bgpAttrAs4Path : AttrParser σ AttrParseRet := do
  let as4Path ← read fun s => aspathParse s args.length true
  modify fun st => { st with as4Path }
  if as4Path.isNone then bgpAttrMalformed env args .malAsPath 0
  else setFlag .as4Path

/-- `IPV4_NET0`, `IPV4_NET127` and `IPV4_CLASS_DE`. -/
def martianNexthop (addr : UInt32) : Bool :=
  addr &&& 0xff000000 == 0 || addr &&& 0xff000000 == 0x7f000000 || addr &&& 0xe0000000 == 0xe0000000

def bgpAttrNexthop : AttrParser σ AttrParseRet := do
  if args.length ≠ 4 then attrLengthErr env args
  else
    let nexthop ← getIpv4
    if martianNexthop nexthop then bgpAttrMalformed env args .invalNextHop args.total
    else
      modifyAttr fun attr => { attr with nexthop }
      setFlag .nextHop

def bgpAttrMed : AttrParser σ AttrParseRet := do
  if args.length ≠ 4 then attrLengthErr env args
  else
    let med ← getl
    modifyAttr fun attr => { attr with med }
    setFlag .multiExitDisc

/-- `bgp_attr_local_pref`: from an external peer it is skipped. -/
def bgpAttrLocalPref : AttrParser σ AttrParseRet := do
  if args.length ≠ 4 then attrLengthErr env args
  else if env.peer.sort = .ebgp then
    forwardGetp args.length
    return .proceed
  else
    let localPref ← getl
    modifyAttr fun attr => { attr with localPref }
    setFlag .localPref

def bgpAttrAtomic : AttrParser σ AttrParseRet :=
  if args.length ≠ 0 then attrLengthErr env args else setFlag .atomicAggregate

def bgpAttrAggregator : AttrParser σ AttrParseRet := do
  modifyExtra id
  if args.length ≠ (if env.peer.cap .as4Rcv then 8 else 6) then attrLengthErr env args
  else
    let aggregatorAs ← read (asnGet (env.peer.cap .as4Rcv))
    let aggregatorAddr ← getIpv4
    modifyExtra fun extra => { extra with aggregatorAs, aggregatorAddr }
    setFlag .aggregator

/-- `bgp_attr_as4_aggregator`; its error carries no data. -/
def bgpAttrAs4Aggregator : AttrParser σ AttrParseRet := do
  if args.length ≠ 8 then bgpAttrMalformed env args .attrLengErr 0
  else
    let as4Aggregator ← getl
    let as4AggregatorAddr ← getIpv4
    modify fun st => { st with as4Aggregator, as4AggregatorAddr }
    setFlag .as4Aggregator

def bgpAttrCommunity : AttrParser σ AttrParseRet := do
  if args.length = 0 then
    modifyAttr fun attr => { attr with community := none }
    return .proceed
  else
    let community := communityParse (← peek args.length)
    modifyAttr fun attr => { attr with community }
    forwardGetp args.length
    if community.isNone then bgpAttrMalformed env args .optAttrErr args.total
    else setFlag .communities

def bgpAttrOriginatorId : AttrParser σ AttrParseRet := do
  if args.length ≠ 4 then attrLengthErr env args
  else
    let originatorId ← getIpv4
    modifyExtra fun extra => { extra with originatorId }
    setFlag .originatorId

def bgpAttrClusterList : AttrParser σ AttrParseRet := do
  if args.length % 4 ≠ 0 then attrLengthErr env args
  else
    let cluster := clusterParse (← peek args.length)
    modifyExtra fun extra => { extra with cluster := some cluster }
    forwardGetp args.length
    setFlag .clusterList

def bgpAttrExtCommunities : AttrParser σ AttrParseRet := do
  if args.length = 0 then
    modifyAttr fun attr => { attr with extra := attr.extra.map fun extra => { extra with ecommunity := none } }
    return .proceed
  else
    let ecommunity := ecommunityParse (← peek args.length)
    modifyExtra fun extra => { extra with ecommunity }
    forwardGetp args.length
    if ecommunity.isNone then bgpAttrMalformed env args .optAttrErr args.total
    else setFlag .extCommunities

/-! ### Multiprotocol attributes -/

def safiMplsLabeledVpn : UInt8 := 128

/-- What `bgp_nlri_sanity_check` accepts: prefixes of the family's lengths that end with the field. -/
def nlriSane (afi : UInt16) : List UInt8 → Bool
  | [] => true
  | prefixlen :: pnt =>
    if afi = Afi.ip.code ∧ prefixlen > 32 ∨ afi = Afi.ip6.code ∧ prefixlen > 128 then false
    else if pnt.length < psize prefixlen then false
    else nlriSane afi (pnt.drop (psize prefixlen))
termination_by octets => octets.length
decreasing_by simp only [length_drop, length_cons]; omega

def bgpNlriSanityCheck (afi : UInt16) (nlri : List UInt8) : AttrParser σ Bool := do
  if nlriSane afi nlri then return true
  else
    notify .invalNetwork []
    return false

/-- The NLRI of a multiprotocol attribute are checked except for labelled ones. -/
def mpNlriCheck (afi : UInt16) (safi : UInt8) (nlri : List UInt8) : AttrParser σ Bool :=
  if safi ≠ safiMplsLabeledVpn then bgpNlriSanityCheck afi nlri else return true

/-- `IN6_IS_ADDR_LINKLOCAL`. -/
def linkLocal (octets : List UInt8) : Bool := octets.getD 0 0 == 0xfe && octets.getD 1 0 &&& 0xc0 == 0x80

/-- The next hop of `bgp_mp_reach_parse`, by its length; `false` for a length that is not known. -/
def mpNexthopParse (mpNexthopLen : UInt8) : AttrParser σ Bool := do
  match mpNexthopLen.toNat with
  | 4 =>
    let addr ← getIpv4
    modifyExtra fun extra => { extra with mpNexthopGlobalIn := addr }
    modifyAttr fun attr => { attr with nexthop := if attr.nexthop = 0 then addr else attr.nexthop }
    return true
  | 12 =>
    -- the route distinguisher comes first
    let _ ← getl
    let _ ← getl
    let addr ← getIpv4
    modifyExtra fun extra => { extra with mpNexthopGlobalIn := addr }
    return true
  | 16 =>
    let addr ← get16
    modifyExtra fun extra => { extra with mpNexthopGlobal := addr }
    return true
  | 32 =>
    let addr ← get16
    let addr2 ← get16
    modifyExtra fun extra =>
      { extra with mpNexthopGlobal := addr, mpNexthopLocal := addr2,
                   mpNexthopLen := if linkLocal addr2.octets then extra.mpNexthopLen else 16 }
    return true
  | _ => return false

def bgpMpReachParse : AttrParser σ AttrParseRet := do
  modifyExtra id
  let start ← getp
  if args.length > (← get).ibuf.readable ∨ args.length < 5 then return .errorNotifypls
  else
    let afi ← getw
    let safi ← getc
    let mpNexthopLen ← getc
    modifyExtra fun extra => { extra with mpNexthopLen }
    if args.length - ((← getp) - start) < mpNexthopLen.toNat then return .errorNotifypls
    else if !(← mpNexthopParse mpNexthopLen) then return .errorNotifypls
    else if args.length - ((← getp) - start) = 0 then return .errorNotifypls
    else
      -- the length of the SNPA, which is not used any more
      let _ ← getc
      let nlriLen := args.length - ((← getp) - start)
      if nlriLen = 0 ∨ nlriLen > (← get).ibuf.readable then return .errorNotifypls
      else
        let nlri ← peek nlriLen
        if !(← mpNlriCheck afi safi nlri) then return .errorNotifypls
        else
          modify fun st => { st with mpUpdate := ⟨afi, safi, nlri⟩ }
          forwardGetp nlriLen
          setFlag .mpReachNlri

def bgpMpUnreachParse : AttrParser σ AttrParseRet := do
  if args.length > (← get).ibuf.readable ∨ args.length < 3 then return .errorNotifypls
  else
    let afi ← getw
    let safi ← getc
    let withdrawLen := args.length - 3
    let nlri ← peek withdrawLen
    if !(← mpNlriCheck afi safi nlri) then return .errorNotifypls
    else
      modify fun st => { st with mpWithdraw := ⟨afi, safi, nlri⟩ }
      forwardGetp withdrawLen
      setFlag .mpUnreachNlri

/-! ### Tarpan and what is not known -/

/-- A step of the process that is no read. -/
def AttrParser.onSpeaker {α : Type} (f : Speaker σ → Option (α × Speaker σ)) : AttrParser σ α := fun st =>
  (f st.speaker).map fun (a, speaker) => (a, { st with speaker })

/-- The rest of `bgp_tarpan_parse`: what it reads, and what it does to the attributes. -/
def bgpAttrTarpan : AttrParser σ AttrParseRet := do
  let octets ← peek args.length
  let tarpan ← onSpeaker fun sp =>
    bgpTarpanParse env.codec env.tarpanActiveHandler env.peer.as sp octets env.newTarpan
  modifyAttr fun attr => { attr with tarpan }
  forwardGetp args.length
  if tarpan.isNone then return .proceed
  else setFlag .tarpan

/-- `SET_FLAG` on the octet of the buffer at `pos`. -/
def setOctetFlag (s : Stream) (pos : Nat) (flag : UInt8) : Stream where
  getp := s.getp
  data := s.data.modify pos (· ||| flag)
  size := s.size
  getp_le := by rw [length_modify]; exact s.getp_le
  endp_le := by rw [length_modify]; exact s.endp_le

/-- `bgp_attr_unknown`: a transitive attribute is kept as it came, with the partial bit. -/
def bgpAttrUnknown : AttrParser σ AttrParseRet := do
  forwardGetp args.length
  if !checkFlag args.flags bgpAttrFlagOptional then bgpAttrMalformed env args .unrecAttr args.total
  else if !checkFlag args.flags bgpAttrFlagTrans then return .proceed
  else
    modify fun st => { st with ibuf := setOctetFlag st.ibuf args.startp bgpAttrFlagPartial }
    let octets := ((← get).ibuf.data.drop args.startp).take args.total
    modifyExtra fun extra => { extra with transit := some (extra.transit.getD [] ++ octets) }
    return .proceed

/-! ## The whole parser -/

/-- The `switch` of `bgp_attr_parse`. -/
def bgpAttrHandle : AttrParser σ AttrParseRet :=
  match BgpAttr.ofCode args.type with
  | some .origin => bgpAttrOrigin env args
  | some .asPath => bgpAttrAspath env args
  | some .as4Path => bgpAttrAs4Path env args
  | some .nextHop => bgpAttrNexthop env args
  | some .multiExitDisc => bgpAttrMed env args
  | some .localPref => bgpAttrLocalPref env args
  | some .atomicAggregate => bgpAttrAtomic env args
  | some .aggregator => bgpAttrAggregator env args
  | some .as4Aggregator => bgpAttrAs4Aggregator env args
  | some .communities => bgpAttrCommunity env args
  | some .originatorId => bgpAttrOriginatorId env args
  | some .clusterList => bgpAttrClusterList env args
  | some .mpReachNlri => bgpMpReachParse args
  | some .mpUnreachNlri => bgpMpUnreachParse args
  | some .extCommunities => bgpAttrExtCommunities env args
  | some .tarpan => bgpAttrTarpan env args
  | some .asPathlimit | none => bgpAttrUnknown env args

/-- An error that ends `bgp_attr_parse`. -/
def attrParseError (err : UpdateErr) : AttrParser σ (Option AttrParseRet) := do
  notify err []
  return some .error

/-- The part of the loop's body that follows the header of the attribute. -/
def bgpAttrBody (attrEndp : Nat) : AttrParser σ (Option AttrParseRet) := do
  if bgpAttrFlagInvalid env args then
    match ← bgpAttrMalformed env args .attrFlagErr args.total with
    | .proceed => return none
    | ret => return some ret
  else
    match ← bgpAttrHandle env args with
    | .errorNotifypls => attrParseError .malAttr
    | .error => return some .error
    | .withdraw => return some .withdraw
    | .proceed => if (← getp) ≠ attrEndp then attrParseError .attrLengErr else return none

def attrLength (flag : UInt8) : AttrParser σ Nat := do
  if checkFlag flag bgpAttrFlagExtlen then return (← getw).toNat
  else return (← getc).toNat

/-- The body of the loop of `bgp_attr_parse`: a result where it returns, and otherwise the loop goes on. -/
def bgpAttrStep (endp : Nat) : AttrParser σ (Option AttrParseRet) := do
  let startp ← getp
  if endp - startp < 3 then attrParseError .attrLengErr
  else
    let flag := 0xf0 &&& (← getc)
    let type ← getc
    if checkFlag flag bgpAttrFlagExtlen && decide (endp - startp < 4) then attrParseError .attrLengErr
    else
      let length ← attrLength flag
      if (← get).seen type then attrParseError .malAttr
      else
        modify fun st => { st with seen := Function.update st.seen type true }
        let attrEndp := (← getp) + length
        if attrEndp > endp then attrParseError .attrLengErr
        else bgpAttrBody env ⟨length, type, flag, startp, attrEndp - startp⟩ attrEndp

/-- The loop of `bgp_attr_parse`. Every turn reads at least three octets, so there are fewer turns than
octets. -/
def bgpAttrLoop (endp : Nat) : Nat → AttrParser σ (Option AttrParseRet)
  | 0 => do
    if (← getp) < endp then failure else return none
  | turns + 1 => do
    if (← getp) < endp then
      match ← bgpAttrStep env endp with
      | some ret => return some ret
      | none => bgpAttrLoop endp turns
    else return none

/-- The part of `bgp_attr_parse` that gives an UPDATE without a Tarpan attribute a new one. -/
def ensureTarpan : AttrParser σ Unit := do
  if (← get).attr.has .tarpan then return ()
  else
    let tarpan ← onSpeaker fun sp =>
      tarpanReceived env.tarpanActiveHandler env.peer.as sp tarpanMessageNew env.newTarpan
    modifyAttr fun attr => { attr with flag := attr.flag ||| BgpAttr.tarpan.flagBit, tarpan := some tarpan }

/-- The attribute that `bgp_attr_check` misses, the last one of those. -/
def attrMissing (attr : Attr) : Option BgpAttr :=
  if env.peer.cap .restartRcv && attr.flag == 0 then none
  else if attr.flag == BgpAttr.mpUnreachNlri.flagBit then none
  else
    let type := if attr.has .origin then none else some .origin
    let type := if attr.has .asPath then type else some .asPath
    let type := if attr.has .nextHop || attr.has .mpReachNlri then type else some .nextHop
    if env.peer.sort = .ibgp ∧ attr.has .localPref = false then some .localPref else type

def bgpAttrCheck : AttrParser σ AttrParseRet := do
  match attrMissing env (← get).attr with
  | none => return .proceed
  | some type =>
    notify .missAttr [type.code]
    return .error

/-- The part of `bgp_attr_munge_as4_attrs` that is about the aggregator: the attributes, and whether
AS4_PATH is to be ignored. -/
def mungeAggregator (st : ParseState σ) : Option (Attr × Bool) :=
  if st.attr.has .as4Aggregator then
    if st.attr.has .aggregator then do
      let extra ← st.attr.extra
      if extra.aggregatorAs ≠ bgpAsTrans.toUInt32 then return (st.attr, true)
      else
        return ({ st.attr with
          extra := some { extra with aggregatorAs := st.as4Aggregator, aggregatorAddr := st.as4AggregatorAddr }
        }, false)
    else
      -- only the number is taken over
      some ({ st.attr with
        extra := some { st.attr.extra.getD {} with aggregatorAs := st.as4Aggregator }
        flag := st.attr.flag ||| BgpAttr.aggregator.flagBit }, false)
  else some (st.attr, false)

def bgpAttrMungeAs4Attrs : AttrParser σ AttrParseRet := fun st =>
  match st.attr.aspath with
  | none => some (.error, st)
  | some aspath =>
    if env.peer.cap .as4Rcv then some (.proceed, st)
    else do
      let (attr, ignoreAs4Path) ← mungeAggregator st
      if !ignoreAs4Path && attr.has .as4Path then
        let newpath ← aspathReconcileAs4 aspath (← st.as4Path)
        return (.proceed, { st with attr := { attr with aspath := some newpath } })
      else return (.proceed, { st with attr })

def aspathLeftConfedCheck (aspath : Aspath) : Bool := aspath.head?.any (·.type.isConfed)
def aspathConfedCheck (aspath : Aspath) : Bool := aspath.any (·.type.isConfed)

def aspathFirstasCheck (aspath : Aspath) (asno : UInt32) : Bool :=
  aspath.head?.any fun seg => seg.type == .asSequence && seg.as.head? == some asno

def bgpAttrAspathCheck : AttrParser σ AttrParseRet := do
  let aspath := (← get).attr.aspath.getD []
  if env.peer.sort = .confed ∧ aspathLeftConfedCheck aspath = false
      ∨ env.peer.sort = .ebgp ∧ aspathConfedCheck aspath then
    notify .malAsPath []
    return .error
  else if (← get).speaker.bgp.flagCheck .enforceFirstAs && env.peer.sort = .ebgp
      && !aspathFirstasCheck aspath env.peer.as then
    notify .malAsPath []
    return .error
  else if env.peer.changeLocalAs ≠ 0 ∧ env.peer.localAsNoPrepend = false then
    let aspath ← (aspathAddSeq aspath env.peer.changeLocalAs : Option Aspath)
    modifyAttr fun attr => { attr with aspath := some aspath }
    return .proceed
  else return .proceed

/-- The part of `bgp_attr_parse` after `bgp_attr_check`. -/
def bgpAttrFinish : AttrParser σ AttrParseRet := do
  if (← get).attr.has .asPath then
    match ← bgpAttrMungeAs4Attrs env with
    | .proceed => bgpAttrAspathCheck env
    | _ =>
      notify .malAttr []
      return .error
  else return .proceed

def bgpAttrParse (size : Nat) : AttrParser σ AttrParseRet := do
  let endp := (← getp) + size
  match ← bgpAttrLoop env endp size with
  | some ret => return ret
  | none =>
    if (← getp) ≠ endp then
      notify .attrLengErr []
      return .error
    else
      ensureTarpan env
      match ← bgpAttrCheck env with
      | .proceed => bgpAttrFinish env
      | ret => return ret

end AttrParser

/-! ## Running a parser -/

namespace AttrParser

variable {σ α β : Type} {st : ParseState σ}

section
variable (st)

theorem bind_run (x : AttrParser σ α) (f : α → AttrParser σ β) : (x >>= f) st = (x st).bind fun r => f r.1 r.2 := rfl

@[simp] theorem pure_run (a : α) : (pure a : AttrParser σ α) st = some (a, st) := rfl
@[simp] theorem get_run : (get : AttrParser σ (ParseState σ)) st = some (st, st) := rfl
@[simp] theorem modify_run (f : ParseState σ → ParseState σ) : (modify f : AttrParser σ Unit) st = some ((), f st) :=
  rfl
@[simp] theorem getp_run : getp st = some (st.ibuf.getp, st) := rfl
@[simp] theorem peek_run (n : Nat) : peek n st = some (st.ibuf.unread.take n, st) := rfl

@[simp] theorem setFlag_run (a : BgpAttr) :
    setFlag a st = some (.proceed, { st with attr := { st.attr with flag := st.attr.flag ||| a.flagBit } }) := rfl

end

theorem run_bind {st' : ParseState σ} {x : AttrParser σ α} {f : α → AttrParser σ β} {a : α} (h : x st = some (a, st')) :
    (x >>= f) st = f a st' := by
  rw [bind_run, h]
  rfl

theorem getc_run {c : UInt8} {rest : List UInt8} (h : st.ibuf.unread = c :: rest) :
    getc st = some (c, { st with ibuf := st.ibuf.advance 1 }) := by
  rw [getc, read, streamGetc_of_unread h]
  rfl

theorem getw_run {w : UInt16} {rest : List UInt8} (h : st.ibuf.unread = beBytes 2 w.toNat ++ rest) :
    getw st = some (w, { st with ibuf := st.ibuf.advance 2 }) := by
  rw [getw, read, streamGetw_of_unread h]
  rfl

theorem forwardGetp_run {n : Nat} (h : n ≤ st.ibuf.readable) :
    forwardGetp n st = some ((), { st with ibuf := st.ibuf.advance n }) := by
  rw [forwardGetp, read, streamForwardGetp_eq, if_pos h]
  rfl

end AttrParser

end Tarpan.Bgpd
