/-
The writer of path attributes (`bgp_packet_attribute` and `bgp_packet_mpattr_*` of bgp_attr.c). The path attributes
go out one after the other in the order of the source; each part of the function is a function here.
-/
import Tarpan.Bgpd.Packet.Withdraw

namespace Tarpan.Bgpd

open Base Lib

/-- The flags of an address family of a peer that are read here. -/
inductive PeerAfFlag where
  | asPathUnchanged | rserverClient | sendCommunity | sendExtCommunity
  deriving DecidableEq

/-- What `bgp_packet_attribute` depends on: the peer with its flags for the family, the peer that the route comes
from, and the instance. `confedId` is there with `BGP_CONFIG_CONFEDERATION`, `clusterId` with
`BGP_CONFIG_CLUSTER_ID`. -/
structure PacketEnv (σ : Type) where
  peer : Peer
  localAs : UInt32
  nexthopV4 : UInt32 := 0
  afFlag : PeerAfFlag → Bool := fun _ => false
  localAsReplaceAs : Bool := false
  fromPeer : Option Peer := none
  confedId : Option UInt32 := none
  clusterId : Option UInt32 := none
  codec : TarpanCodec
  tarpanActiveHandler : Option (TarpanProtocolHandler σ) := none
  newTarpan : TarpanAttr

/-! ## Headers -/

section
variable (s : Stream) (flags : UInt8) (type : BgpAttr) (length : Nat)

/-- Flags, type and a length in one octet. -/
def attrPutc : Option Stream := do
  let s ← streamPutc s flags
  let s ← streamPutc s type.code
  streamPutc s (UInt8.ofNat length)

/-- Flags, type and a length in two octets. -/
def attrPutw : Option Stream := do
  let s ← streamPutc s (flags ||| bgpAttrFlagExtlen)
  let s ← streamPutc s type.code
  streamPutw s (UInt16.ofNat length)

/-- The form that the length needs. -/
def attrPutSized : Option Stream := if length > 255 then attrPutw s flags type length else attrPutc s flags type length

end

/-! ## MP_REACH_NLRI -/

variable {afi : Afi}

/-- The next hop of `bgp_packet_mpattr_start`; for the families that have none nothing is written. -/
def mpattrNexthopPut (s : Stream) (afi : Afi) (safi : Safi) (attr : Attr) : Option Stream :=
  match afi, safi with
  | .ip, .unicast | .ip, .multicast => do
    let s ← streamPutc s 4
    streamPutIpv4 s attr.nexthop
  | .ip, .mplsVpn => do
    let s ← streamPutc s 12
    let s ← streamPutl s 0
    let s ← streamPutl s 0
    streamPut s (beBytes 4 (← attr.extra).mpNexthopGlobalIn.toNat)
  | .ip6, .unicast | .ip6, .multicast => do
    let attre ← attr.extra
    let s ← streamPutc s attre.mpNexthopLen
    let s ← streamPut s attre.mpNexthopGlobal.octets
    if attre.mpNexthopLen = 32 then streamPut s attre.mpNexthopLocal.octets else some s
  | .ip6, .mplsVpn => some s

/-- `bgp_packet_mpattr_start`: also the position of the length. The SAFI is written as it is. -/
def bgpPacketMpattrStart (s : Stream) (afi : Afi) (safi : Safi) (attr : Attr) : Option (Stream × Nat) := do
  let s ← streamPutc s (bgpAttrFlagOptional ||| bgpAttrFlagExtlen)
  let s ← streamPutc s BgpAttr.mpReachNlri.code
  let sizep := s.endp
  let s ← streamPutw s 0
  let s ← streamPutw s afi.code
  let s ← streamPutc s safi.code
  let s ← mpattrNexthopPut s afi safi attr
  -- no SNPA
  let s ← streamPutc s 0
  return (s, sizep)

/-- `bgp_packet_mpattr_prefix`; for a null pointer `stream_put` writes zeros. -/
def bgpPacketMpattrPrefix (s : Stream) (safi : Safi) (p : Prefix afi) (prd : Option PrefixRd)
    (tag : Option (List UInt8)) :
    Option Stream :=
  if safi = .mplsVpn then do
    let s ← streamPutc s (p.prefixlen + 88)
    let s ← streamPut s (tag.getD [0, 0, 0])
    let s ← streamPut s (← prd).val
    streamPut s (p.octets.take (psize p.prefixlen))
  else streamPutPrefix s p

def bgpPacketMpattrEnd (s : Stream) (sizep : Nat) : Option Stream :=
  streamPutwAt s sizep (UInt16.ofNat (s.endp - sizep - 2))

/-! ## The parts of `bgp_packet_attribute` -/

section Parts
variable {σ : Type} (env : PacketEnv σ) (safi : Safi) (attr : Attr)

def PacketEnv.use32bit : Bool := env.peer.cap .as4Rcv

section
variable (s : Stream)

/-- An attribute with an AS path; its length is what `aspath_put` returns. -/
def aspathAttrPut (flags : UInt8) (type : BgpAttr) (aspath : Aspath) (use32bit : Bool) : Option Stream := do
  let s ← streamPutc s (flags ||| bgpAttrFlagExtlen)
  let s ← streamPutc s type.code
  let aspathSizep := s.endp
  let s ← streamPutw s 0
  let (s, n) ← aspathPut s aspath use32bit
  streamPutwAt s aspathSizep (UInt16.ofNat n)

def originPut : Option Stream := do
  let s ← attrPutc s bgpAttrFlagTrans .origin 1
  streamPutc s attr.origin

def packetAspath (aspath : Aspath) : Option Aspath :=
  if env.peer.sort = .ebgp ∧ (env.afFlag .asPathUnchanged = false ∨ aspath = []) ∧
    env.afFlag .rserverClient = false then
    match env.confedId with
    | some confedId => aspathAddSeq (aspathDeleteConfedSeq aspath) confedId
    | none =>
      if env.peer.changeLocalAs ≠ 0 then do
        let aspath ← if env.localAsReplaceAs then some aspath else aspathAddSeq aspath env.localAs
        aspathAddSeq aspath env.peer.changeLocalAs
      else aspathAddSeq aspath env.localAs
  else if env.peer.sort = .confed then aspathAddConfedSeq aspath env.localAs
  else some aspath

def aspathHasAs4 (aspath : Aspath) : Bool := aspath.any fun seg => seg.as.any (· > bgpAsMax)

def nexthopPut (afi : Afi) (s : Stream) : Option Stream :=
  if attr.has .nextHop ∧ afi = .ip then do
    let s ← attrPutc s bgpAttrFlagTrans .nextHop 4
    streamPutIpv4 s (if safi = .mplsVpn ∧ attr.nexthop = 0 then env.nexthopV4 else attr.nexthop)
  else some s

def medPut : Option Stream :=
  if attr.has .multiExitDisc then do
    let s ← attrPutc s bgpAttrFlagOptional .multiExitDisc 4
    streamPutl s attr.med
  else some s

/-- An internal peer gets it whether it is set or not. -/
def localPrefPut : Option Stream :=
  if env.peer.sort = .ibgp ∨ env.peer.sort = .confed then do
    let s ← attrPutc s bgpAttrFlagTrans .localPref 4
    streamPutl s attr.localPref
  else some s

def atomicPut : Option Stream :=
  if attr.has .atomicAggregate then attrPutc s bgpAttrFlagTrans .atomicAggregate 0 else some s

def aggregatorPut : Option Stream :=
  if attr.has .aggregator then do
    let extra ← attr.extra
    let s ← attrPutc s (bgpAttrFlagOptional ||| bgpAttrFlagTrans) .aggregator (if env.use32bit then 8 else 6)
    let s ← asnPut env.use32bit s extra.aggregatorAs
    streamPutIpv4 s extra.aggregatorAddr
  else some s

def communityPut : Option Stream :=
  if env.afFlag .sendCommunity ∧ attr.has .communities then do
    let community ← attr.community
    let s ← attrPutSized s (bgpAttrFlagOptional ||| bgpAttrFlagTrans) .communities (community.length * 4)
    streamPut s (wordOctets community)
  else some s

/-- The Tarpan attribute that is sent on, if there is one. -/
def attrTarpan : Option (Option TarpanAttr) := if attr.has .tarpan then attr.tarpan.map some else some none

/-- There is always a Tarpan attribute to send. -/
def tarpanPut (sp : Speaker σ) (s : Stream) : Option (Stream × Speaker σ) := do
  let attrTarpan ← attrTarpan attr
  let (octets, sp) ← packetTarpan env.codec env.tarpanActiveHandler env.peer.as sp attrTarpan env.newTarpan
  let s ← attrPutw s (bgpAttrFlagOptional ||| bgpAttrFlagTrans) .tarpan octets.length
  let s ← streamPut s octets
  return (s, sp)

/-- The route is reflected: it goes from an internal peer to an internal peer. -/
def PacketEnv.reflects : Bool := env.peer.sort = .ibgp ∧ env.fromPeer.any (·.sort = .ibgp)

/-- The cluster id of the instance. -/
def PacketEnv.ownCluster (bgp : Bgp) : UInt32 := env.clusterId.getD bgp.routerId

/-- The ORIGINATOR_ID with which a route is reflected. -/
def reflectedOriginator : Option UInt32 :=
  if attr.has .originatorId then attr.extra.map (·.originatorId) else env.fromPeer.map (·.remoteId)

/-- ORIGINATOR_ID and CLUSTER_LIST. The length of the list stands in one octet. -/
def reflectPut (bgp : Bgp) (s : Stream) : Option Stream :=
  if env.reflects then do
    let s ← attrPutc s bgpAttrFlagOptional .originatorId 4
    let s ← streamPutIpv4 s (← reflectedOriginator env attr)
    let cluster := (attr.extra.bind (·.cluster)).getD []
    let s ← attrPutc s bgpAttrFlagOptional .clusterList (cluster.length * 4 + 4)
    let s ← streamPutIpv4 s (env.ownCluster bgp)
    streamPut s (wordOctets cluster)
  else some s

/-- `ECOMMUNITY_FLAG_NON_TRANSITIVE`. -/
def ecommunityNonTransitive (val : List UInt8) : Bool := checkFlag (val.headD 0) 0x40

def ecommunityPut : Option Stream :=
  if env.afFlag .sendExtCommunity ∧ attr.has .extCommunities then do
    let ecommunity ← (← attr.extra).ecommunity
    if env.peer.sort = .ibgp ∨ env.peer.sort = .confed then
      let s ← attrPutSized s (bgpAttrFlagOptional ||| bgpAttrFlagTrans) .extCommunities (ecommunity.length * 8)
      streamPut s ecommunity.flatten
    else
      let transitive := ecommunity.filter fun val => !ecommunityNonTransitive val
      if transitive = [] then some s
      else
        let s ← attrPutSized s (bgpAttrFlagOptional ||| bgpAttrFlagTrans) .extCommunities (transitive.length * 8)
        transitive.foldlM streamPut s
  else some s

/-- AS4_PATH, for a peer with two-octet AS numbers. -/
def as4PathPut (aspath : Aspath) (s : Stream) : Option Stream :=
  if !env.use32bit && aspathHasAs4 aspath then
    aspathAttrPut s (bgpAttrFlagTrans ||| bgpAttrFlagOptional) .as4Path (aspathDeleteConfedSeq aspath) true
  else some s

/-- AS4_AGGREGATOR, where AGGREGATOR says AS_TRANS. -/
def as4AggregatorPut : Option Stream :=
  if attr.has .aggregator && !env.use32bit then do
    let extra ← attr.extra
    if extra.aggregatorAs > 65535 then
      let s ← attrPutc s (bgpAttrFlagOptional ||| bgpAttrFlagTrans) .as4Aggregator 8
      let s ← streamPutl s extra.aggregatorAs
      streamPutIpv4 s extra.aggregatorAddr
    else some s
  else some s

def transitPut : Option Stream :=
  match attr.extra.bind (·.transit) with
  | some transit => streamPut s transit
  | none => some s

end

/-- The prefix in MP_REACH_NLRI, outside of IPv4 unicast. -/
def mpattrPut (p : Option (Prefix afi)) (prd : Option PrefixRd) (tag : Option (List UInt8)) (s : Stream) :
    Option Stream :=
  match p with
  | none => some s
  | some p =>
    if afi = .ip ∧ safi = .unicast then some s
    else do
      let (s, mpattrlenPos) ← bgpPacketMpattrStart s afi safi attr
      let s ← bgpPacketMpattrPrefix s safi p prd tag
      bgpPacketMpattrEnd s mpattrlenPos

/-- `bgp_packet_attribute`: the stream with the attributes and their total size. -/
def bgpPacketAttribute (sp : Speaker σ) (s : Stream) (p : Option (Prefix afi)) (prd : Option PrefixRd)
    (tag : Option (List UInt8)) : Option (Stream × Nat × Speaker σ) := do
  let cp := s.endp
  let s ← mpattrPut safi attr p prd tag s
  let s ← originPut attr s
  let aspath ← packetAspath env (← attr.aspath)
  let s ← aspathAttrPut s bgpAttrFlagTrans .asPath aspath env.use32bit
  let s ← nexthopPut env safi attr afi s
  let s ← medPut attr s
  let s ← localPrefPut env attr s
  let s ← atomicPut attr s
  let s ← aggregatorPut env attr s
  let s ← communityPut env attr s
  let (s, sp') ← tarpanPut env attr sp s
  let s ← reflectPut env attr sp.bgp s
  let s ← ecommunityPut env attr s
  let s ← as4PathPut env aspath s
  let s ← as4AggregatorPut env attr s
  let s ← transitPut attr s
  return (s, s.endp - cp, sp')

end Parts

end Tarpan.Bgpd
