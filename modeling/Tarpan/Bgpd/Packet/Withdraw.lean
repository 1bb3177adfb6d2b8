/-
The UPDATE messages that withdraw routes and that mark the end of a RIB (`bgp_withdraw_packet` and
`bgp_update_packet_eor` of bgp_packet.c, with `bgp_packet_mpunreach_*` of bgp_attr.c). Outside of IPv4
unicast both consist of MP_UNREACH_NLRI alone, and the speaker that receives them refuses both.
-/
import Tarpan.Bgpd.Packet.Read
import Tarpan.Bgpd.Packet.Unreach

namespace Tarpan.Bgpd

open Base Lib List Option UInt16

/-! ## Parts of a packet -/

def bgpUnfeasibleLen : Nat := 2
def bgpMsgUpdate : UInt8 := 2

def bgpPacketSetMarker (s : Stream) (type : UInt8) : Option Stream := do
  let s ← (replicate bgpMarkerSize 0xff).foldlM streamPutc s
  let s ← streamPutw s 0
  streamPutc s type

def bgpPacketSetSize (s : Stream) : Option Stream := streamPutwAt s bgpMarkerSize (ofNat s.endp)

/-- The SAFI of `bgp_packet_mpunreach_start`. -/
def mpunreachSafi (safi : Safi) : UInt8 := if safi = .mplsVpn then safiMplsLabeledVpn else safi.code

/-- `bgp_packet_mpunreach_start`: also the position of the length. -/
def bgpPacketMpunreachStart (s : Stream) (afi : Afi) (safi : Safi) : Option (Stream × Nat) := do
  let s ← streamPutc s (bgpAttrFlagOptional ||| bgpAttrFlagExtlen)
  let s ← streamPutc s BgpAttr.mpUnreachNlri.code
  let attrlenPnt := s.endp
  let s ← streamPutw s 0
  let s ← streamPutw s afi.code
  let s ← streamPutc s (mpunreachSafi safi)
  return (s, attrlenPnt)

/-- `struct prefix_rd`. -/
structure PrefixRd where
  val : List UInt8
  length_eq : val.length = 8

/-- `struct bgp_node` of the table of a family: its prefix, and that of the node above it, which is
there in a VPN table. -/
structure BgpNode (afi : Afi) where
  p : Prefix afi
  prn : Option PrefixRd

variable {afi : Afi}

/-- `bgp_packet_mpunreach_prefix`. The label is a null pointer, for which `stream_put` writes zeros. -/
def bgpPacketMpunreachPrefix (s : Stream) (p : Prefix afi) (safi : Safi) (prd : Option PrefixRd) : Option Stream :=
  if safi = .mplsVpn then do
    let s ← streamPutc s (p.prefixlen + 88)
    let s ← streamPut s [0, 0, 0]
    let s ← streamPut s (← prd).val
    streamPut s (p.octets.take (psize p.prefixlen))
  else streamPutPrefix s p

def bgpPacketMpunreachEnd (s : Stream) (attrlenPnt : Nat) : Option Stream :=
  streamPutwAt s attrlenPnt (ofNat (s.endp - attrlenPnt - 2))

/-! ## Withdrawal -/

/-- The local variables of `bgp_withdraw_packet`. -/
structure WithdrawState where
  s : Stream
  firstTime : Bool := true
  attrlenPos : Nat := 0
  mpStart : Nat := 0
  mplenPos : Nat := 0

/-- The header is written where the stream is empty. -/
def withdrawOpen (st : WithdrawState) : Option WithdrawState :=
  if st.s.endp = 0 then do
    let s ← bgpPacketSetMarker st.s bgpMsgUpdate
    let s ← streamPutw s 0
    return { st with s }
  else some { st with firstTime := false }

/-- The header of MP_UNREACH_NLRI is written the first time. -/
def withdrawMpOpen (afi : Afi) (safi : Safi) (st : WithdrawState) : Option WithdrawState :=
  if st.firstTime then do
    let s ← streamPutw st.s 0
    let (s', mplenPos) ← bgpPacketMpunreachStart s afi safi
    return { st with s := s', attrlenPos := st.s.endp, mpStart := s.endp, mplenPos }
  else some st

/-- The body of the loop of `bgp_withdraw_packet`, where there is room. -/
def withdrawPut (safi : Safi) (rn : BgpNode afi) (st : WithdrawState) : Option WithdrawState := do
  let st ← withdrawOpen st
  if afi = .ip ∧ safi = .unicast then (streamPutPrefix st.s rn.p).map fun s => { st with s }
  else
    let st ← withdrawMpOpen afi safi st
    (bgpPacketMpunreachPrefix st.s rn.p safi rn.prn).map fun s => { st with s }

/-- The loop of `bgp_withdraw_packet`; also what is left of the queue. The room is reckoned without label
and route distinguisher, so a VPN prefix may be cut. -/
def withdrawLoop (safi : Safi) : List (BgpNode afi) → WithdrawState → Option (WithdrawState × List (BgpNode afi))
  | [], st => some (st, [])
  | rn :: queue, st =>
    if st.s.writeable < 1 + 2 + psize rn.p.prefixlen then some (st, rn :: queue)
    else do withdrawLoop safi queue (← withdrawPut safi rn st)

def withdrawClose (afi : Afi) (safi : Safi) (st : WithdrawState) : Option Stream :=
  if afi = .ip ∧ safi = .unicast then do
    let s ← streamPutwAt st.s bgpHeaderSize (ofNat (st.s.endp - bgpHeaderSize - bgpUnfeasibleLen))
    let s ← streamPutw s 0
    bgpPacketSetSize s
  else do
    let s ← bgpPacketMpunreachEnd st.s st.mplenPos
    let s ← streamPutwAt s st.attrlenPos (ofNat (s.endp - st.mpStart))
    bgpPacketSetSize s

/-- `bgp_withdraw_packet`: the packet, if any, and what is left of the queue. -/
def bgpWithdrawPacket (safi : Safi) (queue : List (BgpNode afi)) : Option (Option Stream × List (BgpNode afi)) := do
  let (st, rest) ← withdrawLoop safi queue { s := streamNew bgpMaxPacketSize }
  if st.s.endp = 0 then return (none, rest)
  else return (some (← withdrawClose afi safi st), rest)

def bgpUpdatePacketEor (afi : Afi) (safi : Safi) : Option Stream := do
  let s ← bgpPacketSetMarker (streamNew bgpMaxPacketSize) bgpMsgUpdate
  let s ← streamPutw s 0
  if afi = .ip ∧ safi = .unicast then
    let s ← streamPutw s 0
    bgpPacketSetSize s
  else
    let s ← streamPutw s 6
    let s ← streamPutc s bgpAttrFlagOptional
    let s ← streamPutc s BgpAttr.mpUnreachNlri.code
    let s ← streamPutc s 3
    let s ← streamPutw s afi.code
    let s ← streamPutc s safi.code
    bgpPacketSetSize s

/-! ## What is written -/

/-- A packet with MP_UNREACH_NLRI alone. -/
def unreachPacket (size : UInt16) (extlen : Bool) (nlri : BgpNlri) (n attributeLen : UInt16) : List UInt8 :=
  replicate bgpMarkerSize 0xff ++ (beBytes 2 size.toNat ++ (bgpMsgUpdate :: unreachUpdate extlen nlri n attributeLen))

/-- The packet is one with MP_UNREACH_NLRI alone, of which the lengths are right. -/
def UnreachAlone (extlen : Bool) (nlri : BgpNlri) (packet : Stream) : Prop :=
  ∃ size n attributeLen, packet.data = unreachPacket size extlen nlri n attributeLen ∧ UnreachFits extlen nlri n ∧
    attributeLen.toNat = (unreachHeader extlen n).length + n.toNat

/-- The NLRI of the family in MP_UNREACH_NLRI. -/
def unreachNlri (afi : Afi) (safi : Safi) (octets : List UInt8) : BgpNlri := ⟨afi.code, mpunreachSafi safi, octets⟩

/-- The stream holds the packet with the prefixes of `sent`; the lengths are still open. -/
structure WithdrawInv (safi : Safi) (st : WithdrawState) (sent : List (BgpNode afi)) (octets : List UInt8) : Prop where
  data : st.s.data = unreachPacket 0 true (unreachNlri afi safi octets) 0 0
  size : st.s.size = bgpMaxPacketSize
  attrlenPos : st.attrlenPos = 21
  mpStart : st.mpStart = 23
  mplenPos : st.mplenPos = 25
  octets : safi ≠ .mplsVpn → octets = sent.flatMap fun rn => rn.p.wire

variable (size : UInt16) (nlri : BgpNlri) (n attributeLen : UInt16)

theorem unreachPacket_length : (unreachPacket size true nlri n attributeLen).length = 30 + nlri.nlri.length := by
  simp only [unreachPacket, unreachUpdate, length_append, length_replicate, length_cons, beBytes_length,
    unreachHeader_length, unreachValue_length, bgpMarkerSize, if_true]
  omega

theorem unreachPacket_append (afi : Afi) (safi : Safi) (n attributeLen : UInt16) (a b : List UInt8) :
    unreachPacket size true (unreachNlri afi safi a) n attributeLen ++ b =
      unreachPacket size true (unreachNlri afi safi (a ++ b)) n attributeLen := by
  simp [unreachPacket, unreachUpdate, unreachValue, unreachNlri]

theorem withdrawOpen_first (afi : Afi) (safi : Safi) :
    ∃ st0 st, withdrawOpen { s := streamNew bgpMaxPacketSize } = some st0 ∧ withdrawMpOpen afi safi st0 = some st ∧
      WithdrawInv safi st ([] : List (BgpNode afi)) [] := by
  cases afi <;> cases safi <;> exact ⟨_, _, rfl, rfl, rfl, rfl, rfl, rfl, rfl, fun _ => rfl⟩

section Put
variable {safi : Safi} {st : WithdrawState} {sent : List (BgpNode afi)} {octets : List UInt8}

theorem WithdrawInv.endp_eq (h : WithdrawInv safi st sent octets) : st.s.endp = 30 + octets.length := by
  rw [Stream.endp, h.data, unreachPacket_length]
  rfl

theorem withdrawOpen_next (h : WithdrawInv safi st sent octets) :
    ∃ st0 st', withdrawOpen st = some st0 ∧ withdrawMpOpen afi safi st0 = some st' ∧
      WithdrawInv safi st' sent octets := by
  have hne : st.s.endp ≠ 0 := by
    rw [h.endp_eq]
    omega
  exact ⟨{ st with firstTime := false }, { st with firstTime := false }, by rw [withdrawOpen, if_neg hne], rfl,
    { h with }⟩

theorem bgpPacketMpunreachPrefix_spec {s : Stream} (rn : BgpNode afi)
    (hroom : 1 + 2 + psize rn.p.prefixlen ≤ s.writeable) (hrd : safi = .mplsVpn → rn.prn.isSome) :
    ∃ s' added, bgpPacketMpunreachPrefix s rn.p safi rn.prn = some s' ∧ s.Appended added s' ∧
      (safi ≠ .mplsVpn → added = rn.p.wire) := by
  unfold bgpPacketMpunreachPrefix
  by_cases hsafi : safi = .mplsVpn
  · obtain ⟨rd, hprn⟩ := isSome_iff_exists.1 (hrd hsafi)
    have hone : [rn.p.prefixlen + 88].length ≤ s.writeable := by
      rw [length_singleton]
      omega
    obtain ⟨s1, h1, hlen⟩ := streamAppend_spec hone
    obtain ⟨s2, h2, htag⟩ := streamPut_spec s1 [0, 0, 0]
    obtain ⟨s3, h3, hval⟩ := streamPut_spec s2 rd.val
    obtain ⟨s4, h4, hoct⟩ := streamPut_spec s3 (rn.p.octets.take (psize rn.p.prefixlen))
    rw [if_pos hsafi, streamPutc_eq, h1, hprn]
    simp only [bind_eq_bind, bind_some, h2, h3, h4]
    exact ⟨s4, _, rfl, ((hlen.trans htag).trans hval).trans hoct, fun hne => absurd hsafi hne⟩
  · have hwire : rn.p.wire.length ≤ s.writeable := by
      rw [Prefix.wire_length]
      omega
    obtain ⟨s', h', happ⟩ := streamAppend_spec hwire
    rw [if_neg hsafi]
    exact ⟨s', _, h', happ, fun _ => rfl⟩

theorem withdrawPut_spec {st0 st' : WithdrawState} (hfam : ¬ (afi = .ip ∧ safi = .unicast)) (rn : BgpNode afi)
    (hrd : safi = .mplsVpn → rn.prn.isSome) (hopen : withdrawOpen st = some st0)
    (hmp : withdrawMpOpen afi safi st0 = some st') (h : WithdrawInv safi st' sent octets)
    (hroom : 1 + 2 + psize rn.p.prefixlen ≤ st'.s.writeable) :
    ∃ st'' octets', withdrawPut safi rn st = some st'' ∧ WithdrawInv safi st'' (sent ++ [rn]) octets' := by
  obtain ⟨s', added, hput, happ, hadd⟩ := bgpPacketMpunreachPrefix_spec rn hroom hrd
  refine ⟨{ st' with s := s' }, octets ++ added, ?_, ?_, happ.size.trans h.size, h.attrlenPos,
    h.mpStart, h.mplenPos, fun hsafi => ?_⟩
  · rw [withdrawPut, hopen]
    simp [if_neg hfam, hmp, hput]
  · rw [happ.data, h.data, unreachPacket_append]
  · rw [h.octets hsafi, hadd hsafi, flatMap_append, flatMap_singleton]

/-- The loop writes a first part of the queue and leaves the rest. -/
theorem withdrawLoop_spec (hfam : ¬ (afi = .ip ∧ safi = .unicast)) : ∀ (queue : List (BgpNode afi))
    (st : WithdrawState) (sent : List (BgpNode afi)) (octets : List UInt8), WithdrawInv safi st sent octets →
    (∀ rn ∈ queue, safi = .mplsVpn → rn.prn.isSome) →
    ∃ st' taken rest octets', withdrawLoop safi queue st = some (st', rest) ∧ queue = taken ++ rest ∧
      WithdrawInv safi st' (sent ++ taken) octets'
  | [], st, sent, octets, h, _ => ⟨st, [], [], octets, rfl, rfl, by rwa [append_nil]⟩
  | rn :: queue, st, sent, octets, h, hrd => by
    rw [withdrawLoop]
    split_ifs with hroom
    · exact ⟨st, [], rn :: queue, octets, rfl, rfl, by rwa [append_nil]⟩
    obtain ⟨st0, st', hopen, hmp, h'⟩ := withdrawOpen_next h
    have hroom' : 1 + 2 + psize rn.p.prefixlen ≤ st'.s.writeable := by
      have hendp := h'.endp_eq.trans h.endp_eq.symm
      rw [Stream.writeable, h'.size, hendp, ← h.size]
      exact Nat.not_lt.1 hroom
    obtain ⟨st'', octets', hput, hinv⟩ := withdrawPut_spec hfam rn (hrd rn mem_cons_self) hopen hmp h' hroom'
    obtain ⟨st1, taken, rest, octets1, hloop, rfl, hinv1⟩ := withdrawLoop_spec hfam queue st'' _ octets' hinv
      fun rn' hmem => hrd rn' (mem_cons_of_mem _ hmem)
    refine ⟨st1, rn :: taken, rest, octets1, ?_, rfl, ?_⟩
    · rw [hput]
      exact hloop
    · rwa [append_assoc] at hinv1

end Put

/-! ### The lengths -/

/-- What comes before the length of the attributes. -/
def beforeAttributeLen (size : UInt16) : List UInt8 :=
  replicate bgpMarkerSize 0xff ++ (beBytes 2 size.toNat ++ (bgpMsgUpdate :: beBytes 2 (0 : UInt16).toNat))

/-- What comes before the length of MP_UNREACH_NLRI. -/
def beforeUnreachLength (size attributeLen : UInt16) : List UInt8 :=
  beforeAttributeLen size ++ (beBytes 2 attributeLen.toNat ++ [unreachFlags true, BgpAttr.mpUnreachNlri.code])

theorem unreachPacket_eq_attributeLen : unreachPacket size true nlri n attributeLen =
      beforeAttributeLen size ++ (beBytes 2 attributeLen.toNat ++ (unreachHeader true n ++ unreachValue nlri)) := by
  simp [unreachPacket, unreachUpdate, beforeAttributeLen]

theorem unreachPacket_eq_length : unreachPacket size true nlri n attributeLen =
      beforeUnreachLength size attributeLen ++ (beBytes 2 n.toNat ++ unreachValue nlri) := by
  rw [unreachPacket_eq_attributeLen, beforeUnreachLength]
  simp [unreachHeader, unreachLength]

variable {safi : Safi} {sent : List (BgpNode afi)} {octets : List UInt8}

section
variable (hfam : ¬ (afi = .ip ∧ safi = .unicast))
include hfam

theorem withdrawClose_spec {st : WithdrawState} (h : WithdrawInv safi st sent octets) :
    ∃ packet, withdrawClose afi safi st = some packet ∧ UnreachAlone true (unreachNlri afi safi octets) packet := by
  have hendp := h.endp_eq
  have hmax : 30 + octets.length ≤ 4096 := by
    rw [← hendp]
    exact st.s.endp_le.trans_eq h.size
  obtain ⟨s1, h1, hd1, -, -⟩ := streamPutwAt_spec 25 (ofNat (st.s.endp - 25 - 2))
    (h.data.trans (unreachPacket_eq_length ..)) rfl (beBytes_length ..)
  rw [← unreachPacket_eq_length] at hd1
  have hendp1 : s1.endp = 30 + octets.length := by
    rw [Stream.endp, hd1, unreachPacket_length]
    rfl
  obtain ⟨s2, h2, hd2, -, -⟩ := streamPutwAt_spec 21 (ofNat (s1.endp - 23))
    (hd1.trans (unreachPacket_eq_attributeLen ..)) rfl (beBytes_length ..)
  rw [← unreachPacket_eq_attributeLen] at hd2
  obtain ⟨s3, h3, hd3, -, -⟩ := streamPutwAt_spec bgpMarkerSize (ofNat s2.endp) hd2
    (length_replicate ..) (beBytes_length ..)
  have hn : (ofNat (st.s.endp - 25 - 2)).toNat = 3 + octets.length := by
    rw [toNat_ofNat']
    omega
  have hlen : (ofNat (s1.endp - 23)).toNat = 7 + octets.length := by
    rw [toNat_ofNat']
    omega
  refine ⟨s3, ?_, _, _, _, hd3, ⟨?_, by rintro ⟨⟩⟩, ?_⟩
  · rw [withdrawClose, if_neg hfam, bgpPacketMpunreachEnd, h.mplenPos, h1, h.attrlenPos, h.mpStart]
    simp only [bind_eq_bind, bind_some, h2]
    exact h3
  · rw [hn, unreachValue_length]
    rfl
  · rw [hn, hlen, unreachHeader_length, if_pos rfl]
    omega

/-- Outside of IPv4 unicast, `bgp_withdraw_packet` makes a packet with MP_UNREACH_NLRI alone from a
first part of the queue. -/
theorem bgpWithdrawPacket_spec {queue : List (BgpNode afi)} (hne : queue ≠ [])
    (hrd : ∀ rn ∈ queue, safi = .mplsVpn → rn.prn.isSome) :
    ∃ packet taken rest octets, bgpWithdrawPacket safi queue = some (some packet, rest) ∧
      queue = taken ++ rest ∧ (safi ≠ .mplsVpn → octets = taken.flatMap fun rn => rn.p.wire) ∧
      UnreachAlone true (unreachNlri afi safi octets) packet := by
  obtain ⟨rn, queue, rfl⟩ := exists_cons_of_ne_nil hne
  obtain ⟨st0, st, hopen, hmp, hinv⟩ := withdrawOpen_first afi safi
  have hpsize : psize rn.p.prefixlen ≤ 16 := rn.p.psize_le.trans (by cases afi <;> decide)
  have hroom : 1 + 2 + psize rn.p.prefixlen ≤ st.s.writeable := by
    rw [Stream.writeable, hinv.size, hinv.endp_eq, bgpMaxPacketSize, length_nil]
    omega
  obtain ⟨st1, octets1, hput, hinv1⟩ := withdrawPut_spec hfam rn (hrd rn mem_cons_self) hopen hmp hinv hroom
  obtain ⟨st2, taken, rest, octets, hloop, rfl, hinv2⟩ := withdrawLoop_spec hfam queue st1 _ octets1 hinv1
    fun rn' hmem => hrd rn' (mem_cons_of_mem _ hmem)
  obtain ⟨packet, hclose, halone⟩ := withdrawClose_spec hfam hinv2
  refine ⟨packet, rn :: taken, rest, octets, ?_, rfl, hinv2.octets, halone⟩
  have hfirst : ¬ (streamNew bgpMaxPacketSize).writeable < 1 + 2 + psize rn.p.prefixlen := by
    rw [show (streamNew bgpMaxPacketSize).writeable = 4096 from rfl]
    omega
  have hnonempty : st2.s.endp ≠ 0 := by
    rw [hinv2.endp_eq]
    omega
  rw [bgpWithdrawPacket, withdrawLoop, if_neg hfirst, hput]
  simp [hloop, if_neg hnonempty, hclose]

/-- Outside of IPv4 unicast, an End-of-RIB is MP_UNREACH_NLRI without routes. -/
theorem bgpUpdatePacketEor_spec : ∃ packet, bgpUpdatePacketEor afi safi = some packet ∧
    UnreachAlone false ⟨afi.code, safi.code, []⟩ packet := by
  have hfits : UnreachFits false ⟨afi.code, safi.code, []⟩ 3 := ⟨by rw [unreachValue_length]; rfl, fun _ => by decide⟩
  cases afi <;> cases safi
  · exact absurd ⟨rfl, rfl⟩ hfam
  all_goals exact ⟨_, rfl, 29, 3, 6, rfl, hfits, rfl⟩

end

/-! ## What is received -/

theorem nlriSane_wire_append (p : Prefix afi) (rest : List UInt8) :
    nlriSane afi.code (p.wire ++ rest) = nlriSane afi.code rest := by
  have hle := p.prefixlen_le
  have hlen : (p.octets.take (psize p.prefixlen)).length = psize p.prefixlen := by
    rw [length_take, p.length_eq, Nat.min_eq_left p.psize_le]
  have hbits : ¬ (afi.code = Afi.ip.code ∧ p.prefixlen > 32 ∨ afi.code = Afi.ip6.code ∧ p.prefixlen > 128) := by
    rintro (⟨hafi, hgt⟩ | ⟨hafi, hgt⟩) <;> rw [gt_iff_lt] at hgt
    · cases afi with
      | ip => exact absurd hle (Nat.not_le.2 hgt)
      | ip6 => exact absurd hafi (by decide)
    · cases afi with
      | ip => exact absurd hafi (by decide)
      | ip6 => exact absurd hle (Nat.not_le.2 hgt)
  rw [Prefix.wire, cons_append, nlriSane, if_neg hbits, if_neg, drop_append_of_le_length hlen.ge,
    drop_of_length_le hlen.le, nil_append]
  rw [length_append]
  omega

/-- The prefixes of a table of the family pass the check. -/
theorem nlriSane_flatMap {ι : Type} (p : ι → Prefix afi) :
    ∀ l : List ι, nlriSane afi.code (l.flatMap fun i => (p i).wire) = true
  | [] => by rw [flatMap_nil, nlriSane]
  | i :: l => by
    rw [flatMap_cons, nlriSane_wire_append]
    exact nlriSane_flatMap p l

theorem unreachNlri_sane
    (h : safi ≠ .mplsVpn → octets = sent.flatMap fun rn => rn.p.wire) : (unreachNlri afi safi octets).Sane := by
  intro hsafi
  have hvpn : safi ≠ .mplsVpn := by
    rintro rfl
    exact hsafi rfl
  rw [unreachNlri, h hvpn]
  exact nlriSane_flatMap BgpNode.p sent

section Receive
variable {σ : Type} (env : ParserEnv σ) (refused : List RouteCall → RouteCall → Bool) (speaker : Speaker σ)

/-- `bgp_update_receive` on a packet of which the header has been read. -/
def receivePacket (packet : Stream) : Option (UpdateResult × ParseState σ) := do
  let ibuf ← streamSetGetp packet bgpHeaderSize
  bgpUpdateReceive env refused (packet.endp - bgpHeaderSize) { ibuf, speaker }

/-- The packet is accepted and leads to the calls: `bgp_attr_parse` says that it is to be proceeded
with, and no NOTIFICATION is sent. -/
def Accepts (packet : Stream) (calls : List RouteCall) : Prop :=
  ∃ res st, receivePacket env refused speaker packet = some (res, st) ∧ res.attrParseRet = .proceed ∧
    st.notified = [] ∧ res.calls = calls

/-- The packet is refused for a missing attribute, and leads to no calls. -/
def Refuses (packet : Stream) : Prop :=
  ∃ res st, receivePacket env refused speaker packet = some (res, st) ∧ res.ret = -1 ∧ res.attrParseRet = .error ∧
    st.notified = [.updateErr .missAttr [(missingAlone env).code]] ∧ res.calls = []

def withdrawCall (safi : Safi) (rn : BgpNode afi) : RouteCall where
  afi
  safi
  prefixlen := rn.p.prefixlen
  octets := rn.p.octets.take (psize rn.p.prefixlen)
  attr := none
  prd := if safi = .mplsVpn then rn.prn.map (·.val) else none
  tag := if safi = .mplsVpn then some [0, 0, 0] else none

/-- What is sent to withdraw the routes of the queue withdraws exactly these where it is received. -/
def WithdrawAgrees (safi : Safi) (queue : List (BgpNode afi)) : Prop :=
  ∃ packet taken rest, bgpWithdrawPacket safi queue = some (some packet, rest) ∧ queue = taken ++ rest ∧
    Accepts env refused speaker packet (taken.map (withdrawCall safi))

def EorAgrees (afi : Afi) (safi : Safi) : Prop :=
  ∃ packet, bgpUpdatePacketEor afi safi = some packet ∧ Accepts env refused speaker packet []

variable {env refused speaker}

variable {packet : Stream}

theorem Refuses.not_accepts (h : Refuses env refused speaker packet) (calls : List RouteCall) :
    ¬ Accepts env refused speaker packet calls := by
  obtain ⟨res, st, hrun, -, -, hntf, -⟩ := h
  rintro ⟨res', st', hrun', -, hnone, -⟩
  rw [hrun] at hrun'
  cases hrun'
  rw [hntf] at hnone
  cases hnone

theorem not_withdrawAgrees_of_refuses {safi : Safi} {queue rest : List (BgpNode afi)}
    (hpkt : bgpWithdrawPacket safi queue = some (some packet, rest)) (h : Refuses env refused speaker packet) :
    ¬ WithdrawAgrees env refused speaker safi queue := by
  rintro ⟨packet', taken, rest', hpkt', -, haccepts⟩
  rw [hpkt] at hpkt'
  cases hpkt'
  exact h.not_accepts _ haccepts

section
variable (hest : env.peer.status = .established) (hs : speaker.store.Ok) (hfresh : speaker.store.Fresh env.newTarpan)
include hest hs hfresh

theorem refuses_of_unreachAlone {extlen : Bool} {nlri : BgpNlri} (hsane : nlri.Sane)
    (h : UnreachAlone extlen nlri packet) :
    Refuses env refused speaker packet := by
  obtain ⟨size, n, attributeLen, hdata, hfits, hlen⟩ := h
  have hsp : packet.data = (replicate bgpMarkerSize 0xff ++ (beBytes 2 size.toNat ++ [bgpMsgUpdate])) ++
      unreachUpdate extlen nlri n attributeLen := by
    rw [hdata, unreachPacket]
    simp
  have hle : bgpHeaderSize ≤ packet.data.length := by
    rw [hsp, length_append]
    exact Nat.le_add_right 19 _
  let ibuf : Stream := { packet with getp := bgpHeaderSize, getp_le := hle }
  have hunr : ibuf.unread = unreachUpdate extlen nlri n attributeLen := by
    show packet.data.drop bgpHeaderSize = _
    rw [hsp]
    exact drop_left' rfl
  obtain ⟨st, hreceive, hntf⟩ := bgpUpdateReceive_unreach env refused hest hs hfresh hsane hfits hlen hunr
  refine ⟨{ ret := -1, attrParseRet := .error }, st, ?_, rfl, rfl, hntf, rfl⟩
  rw [receivePacket, streamSetGetp, dif_pos hle]
  exact hreceive

theorem withdraw_refused {safi : Safi} {queue : List (BgpNode afi)} (hfam : ¬ (afi = .ip ∧ safi = .unicast))
    (hne : queue ≠ []) (hrd : ∀ rn ∈ queue, safi = .mplsVpn → rn.prn.isSome) :
    ∃ packet rest, bgpWithdrawPacket safi queue = some (some packet, rest) ∧ Refuses env refused speaker packet := by
  obtain ⟨packet, taken, rest, octets, hpkt, -, hoct, halone⟩ := bgpWithdrawPacket_spec hfam hne hrd
  exact ⟨packet, rest, hpkt, refuses_of_unreachAlone hest hs hfresh (unreachNlri_sane hoct) halone⟩

theorem eor_refused (safi : Safi) (hfam : ¬ (afi = .ip ∧ safi = .unicast)) :
    ∃ packet, bgpUpdatePacketEor afi safi = some packet ∧ Refuses env refused speaker packet := by
  obtain ⟨packet, hpkt, halone⟩ := bgpUpdatePacketEor_spec hfam
  exact ⟨packet, hpkt, refuses_of_unreachAlone hest hs hfresh (fun _ => by rw [nlriSane]) halone⟩

end

/-- In no case do sender and receiver agree, for any family but IPv4 unicast and any queue: both the
packet that withdraws its routes and the End-of-RIB are refused. -/
theorem unreachAlone_never_agrees (safi : Safi) (queue : List (BgpNode afi)) (hest : env.peer.status = .established)
    (hs : speaker.store.Ok) (hfresh : speaker.store.Fresh env.newTarpan) (hfam : ¬ (afi = .ip ∧ safi = .unicast))
    (hne : queue ≠ []) (hrd : ∀ rn ∈ queue, safi = .mplsVpn → rn.prn.isSome) :
    ¬ WithdrawAgrees env refused speaker safi queue ∧ ¬ EorAgrees env refused speaker afi safi ∧
    (∃ packet rest, bgpWithdrawPacket safi queue = some (some packet, rest) ∧ Refuses env refused speaker packet) ∧
    ∃ packet, bgpUpdatePacketEor afi safi = some packet ∧ Refuses env refused speaker packet := by
  obtain ⟨packet, rest, hpkt, hrefuses⟩ := @withdraw_refused _ _ env refused speaker hest hs hfresh _ _ hfam hne hrd
  obtain ⟨eor, heor, hrefusesEor⟩ := @eor_refused afi _ env refused speaker hest hs hfresh safi hfam
  refine ⟨not_withdrawAgrees_of_refuses hpkt hrefuses, ?_, ⟨packet, rest, hpkt, hrefuses⟩, eor, heor, hrefusesEor⟩
  rintro ⟨eor', heor', haccepts⟩
  rw [heor] at heor'
  cases heor'
  exact hrefusesEor.not_accepts _ haccepts

end Receive

/-- A speaker with an eBGP peer in state Established and all families configured. -/
def sampleEnv : ParserEnv Unit where
  peer := { as := 2, sort := .ebgp, remoteId := 2, suRemote := .sin 2, status := .established, afc := fun _ _ => true }
  codec := .plain
  tarpanActiveHandler := none
  newTarpan := ⟨16, some 4096⟩
  behindFlagsValues := 0

def sampleReceiver : Speaker Unit := ⟨{ as := 1, routerId := 1 }, (), .empty⟩

theorem sampleReceiver_fresh : sampleReceiver.store.Fresh sampleEnv.newTarpan :=
  ⟨fun _ hx => absurd hx (Nat.lt_irrefl 0), 4096, rfl, rfl⟩

/-- The node of 2001:db8::/32. -/
def sampleNode : BgpNode .ip6 := ⟨⟨32, [0x20, 0x01, 0x0d, 0xb8] ++ replicate 12 0, rfl, by decide⟩, none⟩

/-- An IPv6 unicast prefix. -/
theorem unreachAlone_never_agrees_ip6 :
    ¬ WithdrawAgrees sampleEnv (fun _ _ => false) sampleReceiver .unicast [sampleNode] ∧
    ¬ EorAgrees sampleEnv (fun _ _ => false) sampleReceiver .ip6 .unicast := by
  have h := @unreachAlone_never_agrees .ip6 _ sampleEnv (fun _ _ => false) sampleReceiver .unicast [sampleNode] rfl
    TarpanStore.empty_ok sampleReceiver_fresh (by decide) (by decide) (fun _ _ hsafi => nomatch hsafi)
  exact ⟨h.1, h.2.1⟩

/-- The packet that withdraws 2001:db8::/32 from an Established peer of that family leads to a
NOTIFICATION for a missing NEXT_HOP, and nothing is withdrawn. -/
theorem not_withdrawAgrees_ip6 : ∃ (env : ParserEnv Unit) (speaker : Speaker Unit) (queue : List (BgpNode .ip6))
    (packet : Stream) (res : UpdateResult) (st : ParseState Unit),
    env.peer.status = .established ∧ env.peer.afc .ip6 .unicast = true ∧ queue ≠ [] ∧
    bgpWithdrawPacket .unicast queue = some (some packet, []) ∧
    receivePacket env (fun _ _ => false) speaker packet = some (res, st) ∧
    res.attrParseRet = .error ∧ st.notified = [.updateErr .missAttr [3]] ∧ res.calls = [] ∧
    ¬ WithdrawAgrees env (fun _ _ => false) speaker .unicast queue := by
  obtain ⟨packet, rest, hpkt, hrefuses⟩ := @withdraw_refused .ip6 _ sampleEnv (fun _ _ => false) sampleReceiver
    rfl TarpanStore.empty_ok sampleReceiver_fresh .unicast [sampleNode] (by decide) (by decide)
    (fun _ _ hsafi => nomatch hsafi)
  obtain rfl : [] = rest := by
    have hrest : (bgpWithdrawPacket .unicast [sampleNode]).map Prod.snd = some [] := rfl
    rw [hpkt] at hrest
    exact (some.inj hrest).symm
  have hnot := not_withdrawAgrees_of_refuses hpkt hrefuses
  obtain ⟨res, st, hrun, -, hret, hntf, hcalls⟩ := hrefuses
  exact ⟨sampleEnv, sampleReceiver, [sampleNode], packet, res, st, rfl, rfl, by decide, hpkt, hrun, hret, hntf,
    hcalls, hnot⟩

end Tarpan.Bgpd
