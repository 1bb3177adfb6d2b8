/-
MP_REACH_NLRI and MP_UNREACH_NLRI from the writers of bgp_attr.c (`bgp_packet_mpattr_*` and
`bgp_packet_mpunreach_*`) through the handlers of `bgp_attr_parse` to the block of `bgp_update_receive` that takes the
routes of the family. The SAFI of a VPN has another number on the wire than in the process; one of the two
writers maps it, and both readers expect it to be mapped.
-/
import Mathlib.Data.List.TakeWhile
import Tarpan.Bgpd.Attr.Value

namespace Tarpan.Bgpd

open Base Lib AttrParser List Option

/-! ## Next hops -/

/-- The next hops of MP_REACH_NLRI: of IPv4, of a VPN after an empty route distinguisher, and of IPv6, global alone or
with another one for the link. -/
inductive MpNexthop where
  | ip (addr : UInt32)
  | vpn (addr : UInt32)
  | global (addr : In6Addr)
  | both (addr addr2 : In6Addr)
  deriving DecidableEq

open MpNexthop

namespace MpNexthop

def len : MpNexthop → UInt8
  | ip _ => 4
  | vpn _ => 12
  | global _ => 16
  | both _ _ => 32

def octets : MpNexthop → List UInt8
  | ip addr => beBytes 4 addr.toNat
  | vpn addr => replicate 8 0 ++ beBytes 4 addr.toNat
  | global addr => addr.octets
  | both addr addr2 => addr.octets ++ addr2.octets

/-- What the receiver keeps of it: a second address counts where it is of the link. -/
def kept : MpNexthop → MpNexthop
  | both addr addr2 => if linkLocal addr2.octets then both addr addr2 else global addr
  | nh => nh

@[simp] theorem octets_length (nh : MpNexthop) : nh.octets.length = nh.len.toNat := by
  cases nh with
  | ip | vpn => simp [octets, len]
  | global addr => simp [octets, len, addr.length_eq]
  | both addr addr2 => simp [octets, len, addr.length_eq, addr2.length_eq]

theorem kept_eq_iff {nh : MpNexthop} :
    nh.kept = nh ↔ ∀ addr addr2, nh = both addr addr2 → linkLocal addr2.octets = true := by
  cases nh with
  | ip | vpn | global => simp [kept]
  | both addr addr2 => simp [kept]

end MpNexthop

/-- The IPv6 next hop that the attributes hold. -/
def ip6Nexthop (extra : AttrExtra) : Option MpNexthop :=
  match extra.mpNexthopLen.toNat with
  | 16 => some (.global extra.mpNexthopGlobal)
  | 32 => some (.both extra.mpNexthopGlobal extra.mpNexthopLocal)
  | _ => none

/-- The next hop of a route of the family, where its attributes hold one. -/
def heldNexthop (afi : Afi) (safi : Safi) (attr : Attr) : Option MpNexthop :=
  match afi, safi with
  | .ip, .unicast | .ip, .multicast => some (.ip attr.nexthop)
  | .ip, .mplsVpn => attr.extra.map fun extra => .vpn extra.mpNexthopGlobalIn
  | .ip6, .unicast | .ip6, .multicast => attr.extra.bind ip6Nexthop
  | .ip6, .mplsVpn => none

/-- The next hop that `bgp_mp_reach_parse` has left, by `mp_nexthop_len`. -/
def parsedNexthop (attr : Attr) : Option MpNexthop :=
  attr.extra.bind fun extra =>
    match extra.mpNexthopLen.toNat with
    | 4 => some (.ip extra.mpNexthopGlobalIn)
    | 12 => some (.vpn extra.mpNexthopGlobalIn)
    | _ => ip6Nexthop extra

/-! ## The writers -/

variable {value : List UInt8} {calls : List RouteCall} {packet : BgpNlri} {safi : Safi}

section Writers
variable {afi : Afi}

/-- A route as it is written: outside of a VPN the prefix alone counts. -/
structure MpRoute (afi : Afi) where
  p : Prefix afi
  prd : Option PrefixRd := none
  tag : Option (List UInt8) := none
  tag_length : ∀ l ∈ tag, l.length = 3 := by simp

namespace MpRoute

/-- The label, for which zeros are written where there is none. -/
def label (r : MpRoute afi) : List UInt8 := r.tag.getD [0, 0, 0]

theorem label_length (r : MpRoute afi) : r.label.length = 3 := by
  unfold label
  cases h : r.tag with
  | none => rfl
  | some l => exact r.tag_length l h

def rd (r : MpRoute afi) : List UInt8 := (r.prd.map (·.val)).getD []

/-- The octets of a route with the label `label`. -/
def wire (safi : Safi) (label : List UInt8) (r : MpRoute afi) : List UInt8 :=
  if safi = .mplsVpn then (r.p.prefixlen + 88) :: (label ++ (r.rd ++ r.p.octets.take (psize r.p.prefixlen)))
  else r.p.wire

end MpRoute

/-- MP_REACH_NLRI with the routes `l`. -/
def mpReachPut (s : Stream) (safi : Safi) (attr : Attr) (l : List (MpRoute afi)) : Option Stream := do
  let (s, sizep) ← bgpPacketMpattrStart s afi safi attr
  let s ← l.foldlM (fun s r => bgpPacketMpattrPrefix s safi r.p r.prd r.tag) s
  bgpPacketMpattrEnd s sizep

/-- MP_UNREACH_NLRI with the routes `l`. -/
def mpUnreachPut (s : Stream) (safi : Safi) (l : List (MpRoute afi)) : Option Stream := do
  let (s, attrlenPnt) ← bgpPacketMpunreachStart s afi safi
  let s ← l.foldlM (fun s r => bgpPacketMpunreachPrefix s r.p safi r.prd) s
  bgpPacketMpunreachEnd s attrlenPnt

/-- The attribute with the value `value`. -/
def mpTlv (a : BgpAttr) (value : List UInt8) : Tlv := ⟨bgpAttrFlagOptional ||| bgpAttrFlagExtlen, a.code, value⟩

variable (a : BgpAttr)

theorem mpTlv_extlen (value : List UInt8) : (mpTlv a value).extlen = true :=
  (by decide : checkFlag (bgpAttrFlagOptional ||| bgpAttrFlagExtlen) bgpAttrFlagExtlen = true)

theorem mpTlv_wire_length (value : List UInt8) : (mpTlv a value).wire.length = 4 + value.length := by
  rw [Tlv.wire_length, Tlv.header_length, mpTlv_extlen]
  rfl

def reachValue (afi : UInt16) (safi : UInt8) (nh : MpNexthop) (nlri : List UInt8) : List UInt8 :=
  beBytes 2 afi.toNat ++ safi :: nh.len :: (nh.octets ++ 0 :: nlri)

def reachNlri (safi : Safi) (l : List (MpRoute afi)) : List UInt8 := l.flatMap fun r => r.wire safi r.label
def withdrawnNlri (safi : Safi) (l : List (MpRoute afi)) : List UInt8 := l.flatMap fun r => r.wire safi [0, 0, 0]

/-- The header, the value, and then the length in its place. -/
theorem writes_mpTlv {f : Stream → Option Stream} (hf : Writes f value) : Writes (fun s => do
      let s ← streamPutc s (bgpAttrFlagOptional ||| bgpAttrFlagExtlen)
      let s ← streamPutc s a.code
      let sizep := s.endp
      let s ← streamPutw s 0
      let s ← f s
      streamPutwAt s sizep (UInt16.ofNat (s.endp - sizep - 2))) (mpTlv a value).wire := by
  have hsized : WritesTo (fun s => (f s).map fun t => (t, t.endp - s.endp)) value (·, value.length) := by
    intro s hroom
    obtain ⟨s', hs', happ⟩ := hf s hroom
    refine ⟨s', ?_, happ⟩
    simp [hs', Stream.endp, happ.data]
  rw [Tlv.wire_long (mpTlv_extlen a value)]
  refine (writes_lengthAfter ((writes_putc _).bind (writes_putc _)) hsized).congr fun s => ?_
  simp only [bind_eq_bind, Option.bind_assoc]
  refine bind_congr fun s1 _ => bind_congr fun s2 _ => bind_congr fun s3 hs3 => ?_
  have hendp : s3.endp = s2.endp + 2 := by
    obtain ⟨hdata, -, -⟩ := streamAppend_eq_some.1 hs3
    rw [Stream.endp, hdata, length_append]
    rfl
  cases f s3 with
  | none => rfl
  | some s4 => simp [hendp, Nat.sub_sub]

variable {nh : MpNexthop} {attr : Attr}

theorem writes_ip6Nexthop {extra : AttrExtra} (h : ip6Nexthop extra = some nh) :
    Writes (fun s => do
      let s ← streamPutc s extra.mpNexthopLen
      let s ← streamPut s extra.mpNexthopGlobal.octets
      if extra.mpNexthopLen = 32 then streamPut s extra.mpNexthopLocal.octets else some s) (nh.len :: nh.octets) := by
  unfold ip6Nexthop at h
  split at h
  · rename_i hlen
    cases h
    have hlen : extra.mpNexthopLen = 16 := UInt8.toNat_inj.1 hlen
    rw [hlen]
    have hw := (writes_putc 16).bind (writes_put extra.mpNexthopGlobal.octets)
    exact hw.congr fun s => by simp
  · rename_i hlen
    cases h
    have hlen : extra.mpNexthopLen = 32 := UInt8.toNat_inj.1 hlen
    rw [hlen]
    exact (writes_putc 32).bind
      ((writes_put extra.mpNexthopGlobal.octets).bind (writes_put extra.mpNexthopLocal.octets))
  · cases h

theorem writes_mpattrNexthopPut (h : heldNexthop afi safi attr = some nh) :
    Writes (mpattrNexthopPut · afi safi attr) (nh.len :: nh.octets) := by
  cases afi <;> cases safi
  case ip.unicast | ip.multicast =>
    cases h
    exact (writes_putc 4).bind (writes_putl attr.nexthop)
  case ip.mplsVpn =>
    obtain ⟨extra, he, rfl⟩ := map_eq_some_iff.1 h
    have hw := (writes_putc 12).bind ((writes_putl 0).bind ((writes_putl 0).bind
      (writes_put (beBytes 4 extra.mpNexthopGlobalIn.toNat))))
    refine Writes.congr (g := fun s => _) hw fun s => ?_
    simp only [mpattrNexthopPut, he]
    rfl
  case ip6.mplsVpn => cases h
  case ip6.unicast | ip6.multicast =>
    obtain ⟨extra, he, hnh⟩ := bind_eq_some_iff.1 h
    refine (writes_ip6Nexthop hnh).congr fun s => ?_
    simp only [mpattrNexthopPut, he]
    rfl

variable {safi : Safi} (r : MpRoute afi)

/-- A withdrawn route is written as one without a label. -/
theorem writes_mpattrPrefix (tag : Option (List UInt8)) (hrd : safi = .mplsVpn → r.prd.isSome) :
    Writes (bgpPacketMpattrPrefix · safi r.p r.prd tag) (r.wire safi (tag.getD [0, 0, 0])) := by
  by_cases h : safi = .mplsVpn
  · obtain ⟨rd, hr⟩ := isSome_iff_exists.1 (hrd h)
    have hw := (writes_putc (r.p.prefixlen + 88)).bind ((writes_put (tag.getD [0, 0, 0])).bind ((writes_put rd.val).bind
      (writes_put (r.p.octets.take (psize r.p.prefixlen)))))
    rw [MpRoute.wire, if_pos h, MpRoute.rd, hr]
    exact hw.congr fun s => if_pos h
  · rw [MpRoute.wire, if_neg h]
    exact (writes_append r.p.wire).congr fun s => if_neg h

section
variable {l : List (MpRoute afi)} (hrd : safi = .mplsVpn → ∀ r ∈ l, r.prd.isSome)
include hrd

theorem writes_mpReachPut (hnh : heldNexthop afi safi attr = some nh) : Writes (mpReachPut · safi attr l)
      (mpTlv .mpReachNlri (reachValue afi.code safi.code nh (reachNlri safi l))).wire := by
  have hbody := (writes_putw afi.code).bind ((writes_putc safi.code).bind ((writes_mpattrNexthopPut hnh).bind
    ((writes_putc 0).bind (writes_foldlM fun r hr => writes_mpattrPrefix r r.tag fun h => hrd h r hr))))
  have hval : beBytes 2 afi.code.toNat ++ ([safi.code] ++ ((nh.len :: nh.octets) ++ ([0] ++ reachNlri safi l))) =
      reachValue afi.code safi.code nh (reachNlri safi l) := by simp [reachValue]
  refine (writes_mpTlv .mpReachNlri (hval ▸ hbody)).congr fun s => ?_
  simp [mpReachPut, bgpPacketMpattrStart, bgpPacketMpattrEnd, Option.bind_assoc]

theorem writes_mpUnreachPut :
    Writes (mpUnreachPut · safi l)
      (mpTlv .mpUnreachNlri (unreachValue (unreachNlri afi safi (withdrawnNlri safi l)))).wire := by
  have hbody := (writes_putw afi.code).bind ((writes_putc (mpunreachSafi safi)).bind
    (writes_foldlM fun r hr => writes_mpattrPrefix r none fun h => hrd h r hr))
  refine (writes_mpTlv .mpUnreachNlri hbody).congr fun s => ?_
  simp only [mpUnreachPut, bgpPacketMpunreachStart, bgpPacketMpunreachEnd, bind_eq_bind, Option.bind_assoc]
  rfl

end

end Writers

/-! ## The parsers -/

section Parsers
variable {σ : Type} {st : ParseState σ} {rest : List UInt8}

theorem AttrParser.get16_run {addr : In6Addr} (h : st.ibuf.unread = addr.octets ++ rest) :
    get16 st = some (addr, { st with ibuf := st.ibuf.advance 16 }) := by
  have htake : st.ibuf.unread.take 16 = addr.octets := by rw [h, take_left' addr.length_eq]
  refine read_run ?_
  rw [dif_pos (by rw [htake, addr.length_eq])]
  simp [htake]

theorem mpNexthopParse_run (nh : MpNexthop) {extra : AttrExtra} (he : st.attr.extra = some extra)
    (hlen : extra.mpNexthopLen = nh.len) (hunread : st.ibuf.unread = nh.octets ++ rest) :
    ∃ attr, mpNexthopParse nh.len st = some (true, { st with ibuf := st.ibuf.advance nh.len.toNat, attr }) ∧
      parsedNexthop attr = some nh.kept := by
  cases nh with
  | ip addr =>
    simp only [mpNexthopParse, len, UInt8.reduceToNat, bind_run, getIpv4_run hunread]
    refine ⟨_, rfl, ?_⟩
    simp [parsedNexthop, he, hlen, len, kept]
  | vpn addr =>
    have h4 : (st.ibuf.advance 4).unread = beBytes 4 (0 : UInt32).toNat ++ (beBytes 4 addr.toNat ++ rest) := by
      rw [unread_advance, hunread]
      rfl
    have h8 := unread_after h4 rfl
    simp only [mpNexthopParse, len, UInt8.reduceToNat, bind_run]
    rw [@getl_run _ _ _ 0 hunread, bind_some, getl_run h4, bind_some]
    simp only [advance_advance]
    rw [getIpv4_run h8]
    simp only [advance_advance]
    refine ⟨_, rfl, ?_⟩
    simp [parsedNexthop, he, hlen, len, kept]
  | global addr =>
    simp only [mpNexthopParse, len, UInt8.reduceToNat, bind_run, get16_run hunread]
    refine ⟨_, rfl, ?_⟩
    simp [parsedNexthop, ip6Nexthop, he, hlen, len, kept]
  | both addr addr2 =>
    have h0 := hunread.trans (append_assoc ..)
    have h16 : (st.ibuf.advance 16).unread = addr2.octets ++ rest := by
      rw [unread_advance, h0]
      exact drop_left' addr.length_eq
    simp only [mpNexthopParse, len, UInt8.reduceToNat, bind_run, get16_run h0, bind_some]
    rw [get16_run h16]
    simp only [advance_advance, modifyExtra_run, bind_some, he]
    refine ⟨_, rfl, ?_⟩
    by_cases hlocal : linkLocal addr2.octets = true
    · simp [parsedNexthop, ip6Nexthop, hlen, len, kept, hlocal]
    · simp [parsedNexthop, ip6Nexthop, kept, hlocal]

@[simp] theorem reachValue_length (afi : UInt16) (safi : UInt8) (nh : MpNexthop) (nlri : List UInt8) :
    (reachValue afi safi nh nlri).length = 5 + nh.len.toNat + nlri.length := by
  simp [reachValue]
  omega

variable {args : BgpAttrParserArgs} {afi : UInt16} {safi : UInt8}

section
variable {nlri : List UInt8} (nh : MpNexthop) (hne : nlri ≠ [])
  (hlen : args.length = (reachValue afi safi nh nlri).length)
  (hunread : st.ibuf.unread = reachValue afi safi nh nlri ++ rest)
include hne hlen hunread

theorem bgpMpReachParse_head : ∃ attr, parsedNexthop attr = some nh.kept ∧
      bgpMpReachParse args st = (mpNlriCheck afi safi nlri >>= fun sane =>
        if !sane then return .errorNotifypls
        else do
          modify fun st => { st with mpUpdate := ⟨afi, safi, nlri⟩ }
          forwardGetp nlri.length
          setFlag .mpReachNlri)
        { st with ibuf := st.ibuf.advance (5 + nh.len.toNat), attr } := by
  have hread := le_readable hunread
  rw [reachValue_length] at hlen hread
  have hpos := length_pos_iff.2 hne
  have hgetp : ∀ n, n ≤ 5 + nh.len.toNat + nlri.length → (st.ibuf.advance n).getp = st.ibuf.getp + n := fun n hn =>
    advance_getp (hn.trans hread)
  have h0 : st.ibuf.unread = beBytes 2 afi.toNat ++ (safi :: nh.len :: (nh.octets ++ 0 :: nlri) ++ rest) := by
    rw [hunread, reachValue, append_assoc]
  have h2 : (st.ibuf.advance 2).unread = [safi] ++ (nh.len :: (nh.octets ++ 0 :: nlri) ++ rest) := by
    rw [unread_advance, h0]
    exact drop_left' (beBytes_length ..)
  have h3 := unread_after h2 rfl
  have h4 := (@unread_after _ 4 _ [nh.len] _ h3 rfl).trans (append_assoc ..)
  have hskip := unread_after h4 (congrArg (4 + ·) nh.octets_length)
  have hsum : 4 + nh.len.toNat + 1 = 5 + nh.len.toNat := by omega
  have hnlri := @unread_after _ _ (nlri ++ rest) [0] _ hskip hsum
  have hleft := le_readable hnlri
  unfold bgpMpReachParse
  simp only [bind_run, modifyExtra_run, getp_run, get_run, bind_some, id]
  rw [if_neg (by omega)]
  simp only [bind_run]
  rw [getw_run (by exact h0)]
  simp only [bind_some]
  rw [getc_run (by exact h2)]
  simp only [bind_some, advance_advance]
  rw [getc_run (by exact h3)]
  simp only [bind_some, advance_advance, modifyExtra_run, getp_run, getD_some]
  rw [hgetp 4 (by omega), if_neg (by omega)]
  simp only [bind_run]
  obtain ⟨attr, hparse, hkept⟩ := @mpNexthopParse_run σ { st with
    ibuf := st.ibuf.advance 4
    attr := { st.attr with extra := some { st.attr.extra.getD {} with mpNexthopLen := nh.len } } } _ nh _ rfl rfl h4
  refine ⟨attr, hkept, ?_⟩
  rw [hparse]
  simp only [bind_some, Bool.not_true, Bool.false_eq_true, if_false, bind_run, getp_run, advance_advance]
  rw [hgetp (4 + nh.len.toNat) (by omega), if_neg (by omega)]
  simp only [bind_run]
  rw [getc_run (by exact hskip)]
  simp only [bind_some, getp_run, get_run, advance_advance, hsum]
  rw [hgetp (5 + nh.len.toNat) (by omega), if_neg (by omega)]
  have hnlriLen : args.length - (st.ibuf.getp + (5 + nh.len.toNat) - st.ibuf.getp) = nlri.length := by omega
  simp only [bind_run, peek_run, bind_some, hnlriLen, hnlri, take_left]

/-- `bgp_mp_reach_parse` reads the attribute to its end where its NLRI pass the check. -/
theorem bgpMpReachParse_run (hsane : BgpNlri.Sane ⟨afi, safi, nlri⟩) :
    ∃ attr, parsedNexthop attr = some nh.kept ∧ bgpMpReachParse args st =
      some (.proceed, { st with ibuf := st.ibuf.advance args.length, mpUpdate := ⟨afi, safi, nlri⟩, attr }) := by
  obtain ⟨attr, hkept, hhead⟩ := bgpMpReachParse_head nh hne hlen hunread
  have hread := le_readable hunread
  have hleft : nlri.length ≤ (st.ibuf.advance (5 + nh.len.toNat)).readable := by
    rw [← Stream.unread_length, unread_advance, length_drop, Stream.unread_length]
    rw [reachValue_length] at hread
    omega
  refine ⟨{ attr with flag := attr.flag ||| BgpAttr.mpReachNlri.flagBit }, hkept, ?_⟩
  rw [hhead, bind_run, mpNlriCheck_run hsane]
  simp only [Bool.not_true, Bool.false_eq_true, if_false, bind_run, modify_run, bind_some]
  rw [forwardGetp_run (by exact hleft), hlen, reachValue_length]
  simp

/-- It asks for a NOTIFICATION where they do not. -/
theorem bgpMpReachParse_insane (hsafi : safi ≠ safiMplsLabeledVpn) (hinsane : nlriSane afi nlri = false) :
    ∃ st', bgpMpReachParse args st = some (.errorNotifypls, st') := by
  obtain ⟨attr, -, hhead⟩ := bgpMpReachParse_head nh hne hlen hunread
  rw [hhead, bind_run, mpNlriCheck, if_pos hsafi, bgpNlriSanityCheck, hinsane]
  exact ⟨_, rfl⟩

end

variable {a : BgpAttr}

theorem mpTlv_wellFormed
    (h : (mpTlv a value).value.length < if (mpTlv a value).extlen then 65536 else 256) : (mpTlv a value).WellFormed :=
  ⟨unreachFlags_masked true, h⟩

/-- The flags of both attributes are those of the table. -/
theorem mpTlv_flags (env : ParserEnv σ) (ha : a = .mpReachNlri ∨ a = .mpUnreachNlri) (value : List UInt8)
    (startp : Nat) : bgpAttrFlagInvalid env ((mpTlv a value).args startp) = false := by
  rcases ha with rfl | rfl
  · exact unreachFlags_valid env true .mpReachNlri (by decide) (by decide) ..
  · exact unreachFlags_valid env true .mpUnreachNlri (by decide) (by decide) ..

section Step
variable (env : ParserEnv σ) {afi : UInt16} {safi : UInt8} {nh : MpNexthop} {nlri : List UInt8} {endp : Nat}

theorem Tlv.Comes.taken {st' : ParseState σ} (h : (mpTlv a value).Comes rest endp st)
    (ha : a = .mpReachNlri ∨ a = .mpUnreachNlri)
    (hhandle : bgpAttrHandle env ((mpTlv a value).args st.ibuf.getp) (st.headed (mpTlv a value)) = some (.proceed, st'))
    (hibuf : st'.ibuf = (st.headed (mpTlv a value)).ibuf.advance value.length) :
    bgpAttrStep env endp st = some (none, st') ∧ st'.ibuf.getp = st.ibuf.getp + (mpTlv a value).wire.length := by
  have hgetp : st'.ibuf.getp = st.ibuf.getp + (mpTlv a value).wire.length := by
    have hlen : (mpTlv a value).wire.length = (mpTlv a value).header.length + value.length := Tlv.wire_length _
    rw [hibuf, ParseState.headed, advance_advance, ← hlen]
    exact advance_getp (le_readable h.unread)
  exact ⟨bgpAttrStep_taken env (mpTlv_wellFormed h.length) h.seen h.unread h.endp_le
    (mpTlv_flags env ha value _) hhandle
    hgetp, hgetp⟩

section
variable (h : (mpTlv .mpReachNlri (reachValue afi safi nh nlri)).Comes rest endp st) (hne : nlri ≠ [])
include h hne

theorem Tlv.Comes.reach (hsane : BgpNlri.Sane ⟨afi, safi, nlri⟩) : ∃ st', bgpAttrStep env endp st = some (none, st') ∧
      st'.ibuf.getp = st.ibuf.getp + (mpTlv .mpReachNlri (reachValue afi safi nh nlri)).wire.length ∧
      parsedNexthop st'.attr = some nh.kept ∧ st'.mpUpdate = ⟨afi, safi, nlri⟩ := by
  obtain ⟨attr, hkept, hrun⟩ := @bgpMpReachParse_run σ _ rest
    ((mpTlv .mpReachNlri (reachValue afi safi nh nlri)).args st.ibuf.getp) _ _ _ nh hne rfl
      (headed_unread h.unread) hsane
  obtain ⟨hstep, hgetp⟩ := h.taken env (.inl rfl) hrun rfl
  exact ⟨_, hstep, hgetp, hkept, rfl⟩

/-- The session ends where they do not. -/
theorem Tlv.Comes.reachRefused (hsafi : safi ≠ safiMplsLabeledVpn) (hinsane : nlriSane afi nlri = false) :
    ∃ st', bgpAttrStep env endp st = some (some .error, st') := by
  obtain ⟨st', hrun⟩ := @bgpMpReachParse_insane σ _ rest
    ((mpTlv .mpReachNlri (reachValue afi safi nh nlri)).args st.ibuf.getp) _ _ _ nh hne rfl
      (headed_unread h.unread) hsafi hinsane
  rw [bgpAttrStep_tlv env (mpTlv_wellFormed h.length) h]
  exact bgpAttrBody_refuses (mpTlv_flags env (.inl rfl) _ _) hrun (.inr rfl) _

end

theorem Tlv.Comes.unreach (h : (mpTlv .mpUnreachNlri (unreachValue packet)).Comes rest endp st) (hsane : packet.Sane) :
    ∃ st', bgpAttrStep env endp st = some (none, st') ∧
      st'.ibuf.getp = st.ibuf.getp + (mpTlv .mpUnreachNlri (unreachValue packet)).wire.length ∧
        st'.mpWithdraw = packet := by
  have hrun := @bgpMpUnreachParse_run σ _ ((mpTlv .mpUnreachNlri (unreachValue packet)).args st.ibuf.getp) _ rest
    hsane rfl
    (headed_unread h.unread)
  obtain ⟨hstep, hgetp⟩ := h.taken env (.inr rfl) hrun rfl
  exact ⟨_, hstep, hgetp, rfl⟩

end Step

end Parsers

/-! ## The families -/

section Families
variable {afi afi' : Afi} {safi safi' : Safi} (refused : List RouteCall → RouteCall → Bool)

/-- The call for a route of the family with the label `label`. -/
def MpRoute.call (safi : Safi) (attr : Option Attr) (label : List UInt8) (r : MpRoute afi) : RouteCall where
  afi
  safi
  prefixlen := r.p.prefixlen
  octets := r.p.octets.take (psize r.p.prefixlen)
  attr
  prd := if safi = .mplsVpn then some r.rd else none
  tag := if safi = .mplsVpn then some label else none

/-- The calls that are made for a list of routes: where `bgp_update` refuses one, the rest is dropped. -/
def callsMade (calls : List RouteCall) : List RouteCall → List RouteCall
  | [] => calls
  | call :: todo =>
    if call.attr.isSome ∧ refused calls call then calls ++ [call] else callsMade (calls ++ [call]) todo

/-- A prefix of IPv6 unicast that is skipped. -/
def skipped (safi : Safi) (r : MpRoute afi) : Bool :=
  afi = .ip6 ∧ safi = .unicast ∧ linkLocal (r.p.octets.take (psize r.p.prefixlen))

theorem Prefix.take_length (p : Prefix afi) : (p.octets.take (psize p.prefixlen)).length = psize p.prefixlen := by
  rw [length_take, p.length_eq, Nat.min_eq_left p.psize_le]

/-- `bgp_nlri_parse` on what was written for a family that is neither IPv4 unicast nor a VPN. -/
theorem bgpNlriParse_wire (hfam : ¬ (afi = .ip ∧ safi = .unicast)) (hvpn : safi ≠ .mplsVpn) (attr : Option Attr)
    (label : List UInt8) : ∀ (l : List (MpRoute afi)) (calls : List RouteCall),
    bgpNlriParse refused attr afi safi calls (l.flatMap fun r => r.p.wire) =
      callsMade refused calls ((l.filter fun r => !skipped safi r).map (MpRoute.call safi attr label))
  | [], calls => by simp [bgpNlriParse, callsMade]
  | r :: l, calls => by
    have ih := bgpNlriParse_wire hfam hvpn attr label l
    have hlen := Prefix.take_length r.p
    have hcall : r.call safi attr label =
        { afi, safi, prefixlen := r.p.prefixlen, octets := r.p.octets.take (psize r.p.prefixlen), attr } := by
      rw [MpRoute.call, if_neg hvpn, if_neg hvpn]
    have hin : ¬ (r.p.prefixlen.toNat > 8 * afi.octets ∨
        (r.p.octets.take (psize r.p.prefixlen) ++ l.flatMap fun r => r.p.wire).length < psize r.p.prefixlen) := by
      rw [length_append]
      have := r.p.prefixlen_le
      omega
    have hclass : ¬ (afi = .ip ∧ safi = .unicast ∧ (r.p.octets.take (psize r.p.prefixlen)).getD 0 0 &&& 0xf0 = 0xe0) :=
      fun h => hfam ⟨h.1, h.2.1⟩
    rw [flatMap_cons, Prefix.wire, cons_append, bgpNlriParse]
    simp only [take_left' hlen, drop_left' hlen]
    rw [if_neg hin, if_neg hclass]
    by_cases hskip : afi = .ip6 ∧ safi = .unicast ∧ linkLocal (r.p.octets.take (psize r.p.prefixlen)) = true
    · have hskipped : skipped safi r = true := decide_eq_true hskip
      rw [if_pos hskip, ih, filter_cons, hskipped]
      rfl
    · have hskipped : skipped safi r = false := decide_eq_false hskip
      rw [if_neg hskip, filter_cons, hskipped, Bool.not_false, if_pos rfl, map_cons, callsMade, hcall, ih]

/-- With no route refused, all calls are made. -/
theorem callsMade_never (todo calls : List RouteCall) : callsMade (fun _ _ => false) calls todo = calls ++ todo := by
  induction todo generalizing calls with
  | nil => simp [callsMade]
  | cons call todo ih => simp [callsMade, ih]

/-- Withdrawals are not refused. -/
theorem callsMade_withdraw {todo : List RouteCall} (h : ∀ call ∈ todo, call.attr = none) (calls : List RouteCall) :
    callsMade refused calls todo = calls ++ todo := by
  induction todo generalizing calls with
  | nil => simp [callsMade]
  | cons call todo ih =>
    have hnone := h call mem_cons_self
    simp [callsMade, hnone, ih fun c hc => h c (mem_cons_of_mem call hc)]

/-- The type of the route distinguisher is one of those that are known. -/
def rdKnown (r : MpRoute afi) : Bool := beVal (r.rd.take 2) = 0 ∨ beVal (r.rd.take 2) = 1

/-- The bits of label and route distinguisher are added to the length without an overflow. -/
theorem vpnPrefixlen (p : Prefix .ip) : (p.prefixlen + 88).toNat = p.prefixlen.toNat + 88 ∧
    psize (p.prefixlen + 88) = 11 + psize p.prefixlen ∧ p.prefixlen + 88 - 88 = p.prefixlen ∧
      ¬ p.prefixlen + 88 < 88 := by
  have hle : p.prefixlen.toNat ≤ 32 := p.prefixlen_le
  have h88 : (88 : UInt8).toNat = 88 := rfl
  have hplus : (p.prefixlen + 88).toNat = p.prefixlen.toNat + 88 := by
    rw [UInt8.toNat_add]
    omega
  refine ⟨hplus, ?_, ?_, ?_⟩
  · rw [psize, psize]
    omega
  · rw [← UInt8.toNat_inj, UInt8.toNat_sub, hplus]
    omega
  · rw [UInt8.lt_iff_toNat_lt, hplus]
    omega

/-- `bgp_nlri_parse_vpnv4` on what was written: it stops at a type of route distinguisher that it does not know. -/
theorem bgpNlriParseVpnv4_wire (attr : Option Attr) {label : List UInt8} (hlabel : label.length = 3) :
    ∀ (l : List (MpRoute .ip)) (calls : List RouteCall), (∀ r ∈ l, r.prd.isSome) →
    bgpNlriParseVpnv4 attr calls (l.flatMap fun r => r.wire .mplsVpn label) =
      some (calls ++ (l.takeWhile rdKnown).map (MpRoute.call .mplsVpn attr label))
  | [], calls, _ => by simp [bgpNlriParseVpnv4]
  | r :: l, calls, hrd => by
    have ih := fun calls => bgpNlriParseVpnv4_wire attr hlabel l calls fun r' hr' => hrd r' (mem_cons_of_mem r hr')
    obtain ⟨rd, hr⟩ := isSome_iff_exists.1 (hrd r mem_cons_self)
    have hrdlen : r.rd.length = 8 := by
      rw [MpRoute.rd, hr]
      exact rd.length_eq
    have hlen := Prefix.take_length r.p
    obtain ⟨-, hpsize, hminus, hge⟩ := vpnPrefixlen r.p
    generalize hoct : r.p.octets.take (psize r.p.prefixlen) = octets at *
    generalize htail : (l.flatMap fun r => r.wire .mplsVpn label) = tail at *
    have hdrop3 : (label ++ (r.rd ++ (octets ++ tail))).drop 3 = r.rd ++ (octets ++ tail) := drop_left' hlabel
    have hdrop11 : (label ++ (r.rd ++ (octets ++ tail))).drop 11 = octets ++ tail := by
      rw [← append_assoc]
      exact drop_left' (by rw [length_append, hlabel, hrdlen])
    have hdrop : (label ++ (r.rd ++ (octets ++ tail))).drop (11 + psize r.p.prefixlen) = tail := by
      rw [← drop_drop, hdrop11]
      exact drop_left' hlen
    have htype : (r.rd ++ (octets ++ tail)).take 2 = r.rd.take 2 := take_append_of_le_length (by omega)
    have hlong : (label ++ (r.rd ++ (octets ++ tail))).length = 11 + psize r.p.prefixlen + tail.length := by
      simp only [length_append]
      omega
    have hsm : psize r.p.prefixlen ≤ 4 := r.p.psize_le
    rw [flatMap_cons, MpRoute.wire, if_pos rfl, hoct, htail, cons_append, append_assoc, append_assoc, bgpNlriParseVpnv4]
    simp only [htype, hpsize, hdrop3, hdrop11, hdrop, hminus, if_neg hge, Nat.add_sub_cancel_left]
    by_cases hkn : rdKnown r = true
    · have hkn' := of_decide_eq_true hkn
      rw [if_neg (by omega), if_neg (by omega), if_neg (by omega), ih, takeWhile_cons, hkn, if_pos rfl, map_cons]
      rw [take_left' hlen, take_left' hrdlen, take_left' hlabel, append_assoc, MpRoute.call, hoct]
      rfl
    · have hkn' : ¬ (beVal (r.rd.take 2) = 0 ∨ beVal (r.rd.take 2) = 1) := fun h => hkn (decide_eq_true h)
      rw [if_pos (by omega), takeWhile_cons, if_neg hkn, map_nil, append_nil]

/-- Label and route distinguisher are too long for a check that does not know them. -/
theorem nlriSane_vpn {r : MpRoute .ip} (label rest : List UInt8) :
    nlriSane Afi.ip.code (r.wire .mplsVpn label ++ rest) = false := by
  obtain ⟨hplus, -⟩ := vpnPrefixlen r.p
  have hgt : r.p.prefixlen + 88 > 32 := by
    rw [gt_iff_lt, UInt8.lt_iff_toNat_lt, hplus, show (32 : UInt8).toNat = 32 from rfl]
    omega
  rw [MpRoute.wire, if_pos rfl, cons_append, nlriSane, if_pos (.inl ⟨rfl, hgt⟩)]

/-! ### The block of the family -/

variable {refused} {peer : Peer} {routes : List RouteCall → Option (List RouteCall)} {res : UpdateResult}

theorem familyUpdate_of_afc (isEor marks clears : Bool) (hafc : peer.afc afi safi = true)
    (hrts : routes res.calls = some calls) :
    ∃ res', familyUpdate peer afi safi isEor marks clears routes res = some res' ∧ res'.calls = calls := by
  rw [familyUpdate, if_pos hafc, hrts]
  exact ⟨_, rfl, rfl⟩

theorem familyUpdate_other (isEor marks clears : Bool) (hrts : routes res.calls = some res.calls) :
    ∃ res', familyUpdate peer afi safi isEor marks clears routes res = some res' ∧ res'.calls = res.calls := by
  by_cases hafc : peer.afc afi safi = true
  · exact familyUpdate_of_afc isEor marks clears hafc hrts
  · exact ⟨res, if_neg hafc, rfl⟩

/-- The SAFI of a family on the wire. -/
def wireSafi (safi : Safi) : UInt8 := if safi = .mplsVpn then safiMplsLabeledVpn else safi.code

theorem wireSafi_injective (h : wireSafi safi = wireSafi safi') : safi = safi' := by
  revert h
  cases safi <;> cases safi' <;> decide

theorem afiCode_injective {afi : Afi} (h : afi.code = afi'.code) : afi = afi' := by
  revert h
  cases afi <;> cases afi' <;> decide

theorem exists_bind_block {x : Option UpdateResult} {k : UpdateResult → Option UpdateResult} {calls' : List RouteCall}
    (hx : ∃ r, x = some r ∧ r.calls = calls) (hk : ∀ r, r.calls = calls → ∃ res, k r = some res ∧ res.calls = calls') :
    ∃ res, (x >>= k) = some res ∧ res.calls = calls' := by
  obtain ⟨r, rfl, hr⟩ := hx
  exact hk r hr

/-- The packet is of the family, or empty. -/
def BgpNlri.Of (packet : BgpNlri) (afi : Afi) (safi : Safi) : Prop :=
  packet.nlri ≠ [] → packet.afi = afi.code ∧ packet.safi = wireSafi safi

theorem mpRoutes_other (attr : Option Attr) (h : packet.Of afi safi)
    (hne : ¬ (afi' = afi ∧ safi' = safi)) (calls : List RouteCall) :
    mpRoutes refused afi' safi' attr packet calls = some calls := by
  rw [mpRoutes, if_neg]
  rintro ⟨hnlri, hafi, hsafi⟩
  obtain ⟨hafi', hsafi'⟩ := h hnlri
  exact hne ⟨afiCode_injective (hafi.symm.trans hafi'), wireSafi_injective (hsafi.symm.trans hsafi')⟩

theorem mpRoutes_empty (attr : Option Attr) (calls : List RouteCall) :
    mpRoutes refused afi safi attr {} calls = some calls :=
  if_neg fun h => h.1 rfl

/-- The routes of both attributes of a family. -/
def mpBoth (refused : List RouteCall → RouteCall → Bool) (attr : Option Attr) (mpUpdate mpWithdraw : BgpNlri)
    (afi : Afi) (safi : Safi) (calls : List RouteCall) : Option (List RouteCall) := do
  let calls ← mpRoutes refused afi safi attr mpUpdate calls
  mpRoutes refused afi safi none mpWithdraw calls

/-- Of the blocks of `bgp_update_receive` that of the family makes the calls, where the family is configured. -/
theorem updateFamilies_of {σ : Type} {env : ParserEnv σ} (hafc : env.peer.afc afi safi = true)
    (hfam : ¬ (afi = .ip ∧ safi = .unicast)) (hvpn6 : ¬ (afi = .ip6 ∧ safi = .mplsVpn)) {attr : Option Attr}
    {mpUpdate mpWithdraw : BgpNlri} (hupd : mpUpdate.Of afi safi) (hwdr : mpWithdraw.Of afi safi)
    (hrts : mpBoth refused attr mpUpdate mpWithdraw afi safi [] = some calls) (attributeLen : Nat) :
    ∃ res, updateFamilies env refused attr {} {} mpUpdate mpWithdraw attributeLen { ret := 0 } = some res ∧
      res.calls = calls := by
  -- a block makes the calls where it is that of the family, and otherwise none
  have hblock : ∀ (afi' : Afi) (safi' : Safi) (isEor marks clears : Bool) (res : UpdateResult),
      (afi' = afi ∧ safi' = safi → res.calls = []) →
      ∃ res', familyUpdate env.peer afi' safi' isEor marks clears
        (mpBoth refused attr mpUpdate mpWithdraw afi' safi') res =
        some res' ∧ res'.calls = if afi' = afi ∧ safi' = safi then calls else res.calls := by
    intro afi' safi' isEor marks clears res hres
    by_cases h : afi' = afi ∧ safi' = safi
    · obtain ⟨rfl, rfl⟩ := h
      rw [if_pos ⟨rfl, rfl⟩]
      exact familyUpdate_of_afc isEor marks clears hafc (by rw [hres ⟨rfl, rfl⟩, hrts])
    · rw [if_neg h]
      refine familyUpdate_other isEor marks clears ?_
      rw [mpBoth, mpRoutes_other attr hupd h]
      exact mpRoutes_other none hwdr h res.calls
  unfold updateFamilies
  simp only [bgpNlriParse]
  refine exists_bind_block (hblock .ip .unicast _ true true { ret := 0 } fun _ => rfl) fun r1 hc1 => ?_
  refine exists_bind_block (hblock .ip .multicast _ true true r1 ?_) fun r2 hc2 => ?_
  · rintro ⟨rfl, rfl⟩
    simp [hc1]
  refine exists_bind_block (hblock .ip6 .unicast _ true true r2 ?_) fun r3 hc3 => ?_
  · rintro ⟨rfl, rfl⟩
    simp [hc2, hc1]
  refine exists_bind_block (hblock .ip6 .multicast _ false true r3 ?_) fun r4 hc4 => ?_
  · rintro ⟨rfl, rfl⟩
    simp [hc3, hc2, hc1]
  obtain ⟨r5, h5, hc5⟩ := hblock .ip .mplsVpn _ false false r4 (by
    rintro ⟨rfl, rfl⟩
    simp [hc4, hc3, hc2, hc1])
  refine ⟨r5, h5, ?_⟩
  rw [hc5, hc4, hc3, hc2]
  cases afi <;> cases safi <;> simp at hfam hvpn6 ⊢

end Families

/-! ## Agreement -/

section Agreement
variable {σ : Type} {afi : Afi}

/-- MP_REACH_NLRI as it is written leads at `speaker` to the same next hop and to the calls for the same routes,
whichever of them `bgp_update` refuses. -/
def ReachAgrees (env : ParserEnv σ) (speaker : Speaker σ) (safi : Safi) (attr : Attr) (l : List (MpRoute afi))
    (s : Stream) :
    Prop :=
  ∃ s' octets, mpReachPut s safi attr l = some s' ∧ s'.data = s.data ++ octets ∧
    ∀ (refused : List RouteCall → RouteCall → Bool) (st : ParseState σ) (rest : List UInt8) (endp attributeLen : Nat),
      st.speaker = speaker → st.seen BgpAttr.mpReachNlri.code = false → st.ibuf.unread = octets ++ rest →
      st.ibuf.getp + octets.length ≤ endp →
      ∃ st' res, bgpAttrStep env endp st = some (none, st') ∧ st'.ibuf.getp = st.ibuf.getp + octets.length ∧
        parsedNexthop st'.attr = heldNexthop afi safi attr ∧
        updateFamilies env refused (some st'.attr) {} {} st'.mpUpdate {} attributeLen { ret := 0 } = some res ∧
        res.calls = callsMade refused [] (l.map fun r => r.call safi (some st'.attr) r.label)

/-- MP_UNREACH_NLRI as it is written withdraws at `speaker` the same routes. -/
def UnreachAgrees (env : ParserEnv σ) (speaker : Speaker σ) (safi : Safi) (l : List (MpRoute afi))
    (s : Stream) : Prop :=
  ∃ s' octets, mpUnreachPut s safi l = some s' ∧ s'.data = s.data ++ octets ∧
    ∀ (refused : List RouteCall → RouteCall → Bool) (st : ParseState σ) (rest : List UInt8) (endp attributeLen : Nat)
      (attr : Option Attr), st.speaker = speaker → st.seen BgpAttr.mpUnreachNlri.code = false →
      st.ibuf.unread = octets ++ rest → st.ibuf.getp + octets.length ≤ endp →
      ∃ st' res, bgpAttrStep env endp st = some (none, st') ∧ st'.ibuf.getp = st.ibuf.getp + octets.length ∧
        updateFamilies env refused attr {} {} {} st'.mpWithdraw attributeLen { ret := 0 } = some res ∧
        res.calls = l.map (MpRoute.call safi none [0, 0, 0])

variable {env : ParserEnv σ} {speaker : Speaker σ} {safi : Safi} {attr : Attr} {nh : MpNexthop} {l : List (MpRoute afi)}
  {s : Stream} (hfam : ¬ (afi = .ip ∧ safi = .unicast)) (hvpn6 : ¬ (afi = .ip6 ∧ safi = .mplsVpn))
  (hafc : env.peer.afc afi safi = true) (hnh : heldNexthop afi safi attr = some nh) (hne : l ≠ [])
  (hrd : safi = .mplsVpn → ∀ r ∈ l, r.prd.isSome)

theorem flatMap_wire (hvpn : safi ≠ .mplsVpn) (label : MpRoute afi → List UInt8) (l : List (MpRoute afi)) :
    (l.flatMap fun r => r.wire safi (label r)) = l.flatMap fun r => r.p.wire := by
  simp [MpRoute.wire, if_neg hvpn]

theorem flatMap_wire_ne_nil (hne : l ≠ []) (label : MpRoute afi → List UInt8) :
    (l.flatMap fun r => r.wire safi (label r)) ≠ [] := by
  obtain ⟨r, l, rfl⟩ := exists_cons_of_ne_nil hne
  refine append_ne_nil_of_left_ne_nil ?_ _
  unfold MpRoute.wire
  split <;> simp [Prefix.wire]

theorem reachNlri_sane (hvpn : safi ≠ .mplsVpn) (l : List (MpRoute afi)) :
    BgpNlri.Sane ⟨afi.code, safi.code, reachNlri safi l⟩ := by
  intro _
  rw [reachNlri, flatMap_wire hvpn]
  exact nlriSane_flatMap MpRoute.p l

/-- The check is left out for a VPN. -/
theorem withdrawnNlri_sane (l : List (MpRoute afi)) : (unreachNlri afi safi (withdrawnNlri safi l)).Sane := by
  intro hsafi
  have hvpn : safi ≠ .mplsVpn := by
    rintro rfl
    exact hsafi rfl
  rw [unreachNlri, withdrawnNlri, flatMap_wire hvpn]
  exact nlriSane_flatMap MpRoute.p l

include hfam hne in
/-- The calls for the routes of MP_REACH_NLRI. -/
theorem mpBoth_reach (hvpn : safi ≠ .mplsVpn) (refused : List RouteCall → RouteCall → Bool) (attr : Attr) :
    mpBoth refused (some attr) ⟨afi.code, safi.code, reachNlri safi l⟩ {} afi safi [] =
      some (callsMade refused [] ((l.filter fun r => !skipped safi r).map (MpRoute.call safi (some attr) []))) := by
  have hnlri : reachNlri safi l = l.flatMap fun r => r.p.wire := flatMap_wire hvpn _ l
  have hwire : safi.code = wireSafi safi := (if_neg hvpn).symm
  have hmine : mpRoutes refused afi safi (some attr) ⟨afi.code, safi.code, reachNlri safi l⟩ [] =
      some (bgpNlriParse refused (some attr) afi safi [] (reachNlri safi l)) := by
    rw [mpRoutes, if_pos ⟨flatMap_wire_ne_nil hne _, rfl, hwire⟩, if_neg hvpn]
  rw [mpBoth, hmine, hnlri, bgpNlriParse_wire refused hfam hvpn (some attr) [], bind_eq_bind, bind_some, mpRoutes_empty]

section Reach
variable {st : ParseState σ} {rest : List UInt8} {endp : Nat}
  (hcomes : (mpTlv .mpReachNlri (reachValue afi.code safi.code nh (reachNlri safi l))).Comes rest endp st)
include hfam hvpn6 hafc hne hcomes in
theorem reach_run (hvpn : safi ≠ .mplsVpn) (refused : List RouteCall → RouteCall → Bool) (attributeLen : Nat) :
    ∃ st' res, bgpAttrStep env endp st = some (none, st') ∧
      st'.ibuf.getp = st.ibuf.getp +
        (mpTlv .mpReachNlri (reachValue afi.code safi.code nh (reachNlri safi l))).wire.length ∧
      parsedNexthop st'.attr = some nh.kept ∧
      updateFamilies env refused (some st'.attr) {} {} st'.mpUpdate {} attributeLen { ret := 0 } = some res ∧
      res.calls = callsMade refused []
        ((l.filter fun r => !skipped safi r).map (MpRoute.call safi (some st'.attr) [])) := by
  obtain ⟨st', hstep, hgetp, hkept, hupd⟩ := hcomes.reach env (flatMap_wire_ne_nil hne _) (reachNlri_sane hvpn l)
  have hof : st'.mpUpdate.Of afi safi := fun _ => by rw [hupd]; exact ⟨rfl, (if_neg hvpn).symm⟩
  obtain ⟨res, hres, hcalls⟩ := updateFamilies_of hafc hfam hvpn6 hof (fun h => absurd rfl h)
    (hupd ▸ mpBoth_reach hfam hne hvpn refused st'.attr) attributeLen
  exact ⟨st', res, hstep, hgetp, hkept, hres, hcalls⟩
include hne hcomes in
theorem reach_vpn (hvpn : safi = .mplsVpn) (hip : afi = .ip) :
    ∃ st', bgpAttrStep env endp st = some (some .error, st') := by
  subst hvpn hip
  refine hcomes.reachRefused env (flatMap_wire_ne_nil hne _) (by decide) ?_
  obtain ⟨r, l, rfl⟩ := exists_cons_of_ne_nil hne
  exact nlriSane_vpn ..

end Reach

section Unreach
variable {st : ParseState σ} {rest : List UInt8} {endp : Nat}
  (hcomes : (mpTlv .mpUnreachNlri (unreachValue (unreachNlri afi safi (withdrawnNlri safi l)))).Comes rest endp st)

def withdrawn (safi : Safi) (l : List (MpRoute afi)) : List (MpRoute afi) :=
  if safi = .mplsVpn then l.takeWhile rdKnown else l.filter fun r => !skipped safi r
include hfam hvpn6 hne hrd in
/-- The calls for the routes of MP_UNREACH_NLRI. -/
theorem mpBoth_unreach (refused : List RouteCall → RouteCall → Bool) (attr : Option Attr) :
    mpBoth refused attr {} (unreachNlri afi safi (withdrawnNlri safi l)) afi safi [] =
      some ((withdrawn safi l).map (MpRoute.call safi none [0, 0, 0])) := by
  rw [mpBoth, mpRoutes_empty]
  refine (if_pos ⟨flatMap_wire_ne_nil hne _, rfl, rfl⟩).trans ?_
  by_cases hvpn : safi = .mplsVpn
  · subst hvpn
    cases afi with
    | ip =>
      rw [if_pos rfl, withdrawn, if_pos rfl]
      exact (bgpNlriParseVpnv4_wire none rfl l [] (hrd rfl)).trans (by rw [nil_append])
    | ip6 => exact absurd ⟨rfl, rfl⟩ hvpn6
  · rw [if_neg hvpn, withdrawn, if_neg hvpn]
    rw [show (unreachNlri afi safi (withdrawnNlri safi l)).nlri =
      l.flatMap fun r => r.p.wire from flatMap_wire hvpn _ l,
      bgpNlriParse_wire refused hfam hvpn none [0, 0, 0], callsMade_withdraw refused, nil_append]
    intro call hcall
    obtain ⟨r, -, rfl⟩ := mem_map.1 hcall
    rfl
include hfam hvpn6 hafc hne hrd hcomes in
theorem unreach_run (refused : List RouteCall → RouteCall → Bool) (attributeLen : Nat) (attr : Option Attr) :
    ∃ st' res, bgpAttrStep env endp st = some (none, st') ∧
      st'.ibuf.getp = st.ibuf.getp +
        (mpTlv .mpUnreachNlri (unreachValue (unreachNlri afi safi (withdrawnNlri safi l)))).wire.length ∧
      updateFamilies env refused attr {} {} {} st'.mpWithdraw attributeLen { ret := 0 } = some res ∧
      res.calls = (withdrawn safi l).map (MpRoute.call safi none [0, 0, 0]) := by
  obtain ⟨st', hstep, hgetp, hwdr⟩ := hcomes.unreach env (withdrawnNlri_sane l)
  have hof : st'.mpWithdraw.Of afi safi := fun _ => by rw [hwdr]; exact ⟨rfl, rfl⟩
  obtain ⟨res, hres, hcalls⟩ := updateFamilies_of hafc hfam hvpn6 (fun h => absurd rfl h) hof
    (hwdr ▸ mpBoth_unreach hfam hvpn6 hne hrd refused attr) attributeLen
  exact ⟨st', res, hstep, hgetp, hres, hcalls⟩

end Unreach

/-! ### The conditions -/

/-- A buffer in which the octets stand alone. -/
def aloneState (speaker : Speaker σ) (octets : List UInt8) : ParseState σ where
  ibuf := .full octets
  speaker := speaker

theorem alone_comes (speaker : Speaker σ) {t : Tlv} (h : t.value.length < if t.extlen then 65536 else 256) :
    t.Comes [] (0 + t.wire.length) (aloneState speaker t.wire) :=
  ⟨h, rfl, (append_nil _).symm, le_rfl⟩

theorem filter_skipped_eq_iff : (l.filter fun r => !skipped safi r) = l ↔ ∀ r ∈ l, skipped safi r = false := by
  simp

theorem withdrawn_sublist (safi : Safi) (l : List (MpRoute afi)) : (withdrawn safi l).Sublist l := by
  unfold withdrawn
  split
  · exact takeWhile_sublist _
  · exact filter_sublist

theorem withdrawn_eq_iff : withdrawn safi l = l ↔
    (∀ r ∈ l, skipped safi r = false) ∧ (safi = .mplsVpn → ∀ r ∈ l, rdKnown r = true) := by
  unfold withdrawn
  split_ifs with hvpn
  · have hskip : ∀ r ∈ l, skipped safi r = false := fun r _ => by simp [skipped, hvpn]
    rw [takeWhile_eq_self_iff]
    exact ⟨fun h => ⟨hskip, fun _ => h⟩, fun h => h.2 hvpn⟩
  · rw [filter_skipped_eq_iff]
    exact ⟨fun h => ⟨h, fun h' => absurd h' hvpn⟩, fun h => h.1⟩

variable (hsize : s.size ≤ 4096)
include hsize in
theorem length_lt_of_fits {a : BgpAttr} (h : (mpTlv a value).wire.length ≤ s.writeable) :
    (mpTlv a value).value.length < if (mpTlv a value).extlen then 65536 else 256 := by
  rw [mpTlv_wire_length] at h
  have : s.writeable ≤ s.size := Nat.sub_le ..
  rw [mpTlv_extlen]
  exact (by omega : value.length < 65536)
include hfam hvpn6 hafc hne hrd hsize
include hnh in
theorem reachAgrees_iff
    (hroom : (mpTlv .mpReachNlri (reachValue afi.code safi.code nh (reachNlri safi l))).wire.length ≤ s.writeable) :
    ReachAgrees env speaker safi attr l s ↔
    safi ≠ .mplsVpn ∧ (∀ addr addr2, nh = .both addr addr2 → linkLocal addr2.octets = true) ∧
      ∀ r ∈ l, skipped safi r = false := by
  obtain ⟨s', hput, happ⟩ := writes_mpReachPut hrd hnh s hroom
  have hlen := length_lt_of_fits hsize hroom
  constructor
  · rintro ⟨s'', octets, hput', hdata, hagrees⟩
    rw [show mpReachPut s safi attr l = some s' from hput] at hput'
    cases hput'
    obtain rfl := append_cancel_left (happ.data.symm.trans hdata)
    have hcomes := alone_comes speaker hlen
    obtain ⟨st', res, hstep, -, hnexthop, hres, hcalls⟩ :=
      hagrees (fun _ _ => false) _ [] _ 0 rfl hcomes.seen hcomes.unread
      hcomes.endp_le
    have hvpn : safi ≠ .mplsVpn := by
      intro hvpn
      have hip : afi = .ip := by
        cases afi with
        | ip => rfl
        | ip6 => exact absurd ⟨rfl, hvpn⟩ hvpn6
      obtain ⟨st1, href⟩ := @reach_vpn σ afi env safi nh l hne _ _ _ hcomes hvpn hip
      rw [href] at hstep
      cases hstep
    obtain ⟨st1, res1, hstep1, -, hkept, hres1, hcalls1⟩ :=
      reach_run hfam hvpn6 hafc hne hcomes hvpn (fun _ _ => false) 0
    rw [hstep1] at hstep
    cases hstep
    rw [hres1] at hres
    cases hres
    rw [hnh, hkept, some_inj] at hnexthop
    refine ⟨hvpn, kept_eq_iff.1 hnexthop, ?_⟩
    rw [hcalls1, callsMade_never, callsMade_never, nil_append, nil_append] at hcalls
    have hlength := congrArg length hcalls
    rw [length_map, length_map] at hlength
    exact filter_skipped_eq_iff.1 (filter_sublist.eq_of_length hlength)
  · rintro ⟨hvpn, hlocal, hskip⟩
    refine ⟨s', _, hput, happ.data, fun refused st rest endp attributeLen _ hseen hunread hendp => ?_⟩
    obtain ⟨st', res, hstep, hgetp, hkept, hres, hcalls⟩ :=
      @reach_run σ afi env safi nh l hfam hvpn6 hafc hne st rest endp
      ⟨hlen, hseen, hunread, hendp⟩ hvpn refused attributeLen
    refine ⟨st', res, hstep, hgetp, ?_, hres, ?_⟩
    · rw [hnh, hkept, kept_eq_iff.2 hlocal]
    · rw [hcalls, filter_skipped_eq_iff.2 hskip]
      exact congrArg _ (map_congr_left fun r _ => by simp [MpRoute.call, if_neg hvpn])

theorem unreachAgrees_iff
    (hroom : (mpTlv .mpUnreachNlri (unreachValue (unreachNlri afi safi (withdrawnNlri safi l)))).wire.length ≤
      s.writeable) :
    UnreachAgrees env speaker safi l s ↔
      (∀ r ∈ l, skipped safi r = false) ∧ (safi = .mplsVpn → ∀ r ∈ l, rdKnown r = true) := by
  obtain ⟨s', hput, happ⟩ := writes_mpUnreachPut hrd s hroom
  have hlen := length_lt_of_fits hsize hroom
  rw [← withdrawn_eq_iff]
  constructor
  · rintro ⟨s'', octets, hput', hdata, hagrees⟩
    rw [show mpUnreachPut s safi l = some s' from hput] at hput'
    cases hput'
    obtain rfl := append_cancel_left (happ.data.symm.trans hdata)
    have hcomes := alone_comes speaker hlen
    obtain ⟨st', res, hstep, -, hres, hcalls⟩ := hagrees (fun _ _ => false) _ [] _ 0 none rfl hcomes.seen hcomes.unread
      hcomes.endp_le
    obtain ⟨st1, res1, hstep1, -, hres1, hcalls1⟩ :=
      unreach_run hfam hvpn6 hafc hne hrd hcomes (fun _ _ => false) 0 none
    rw [hstep1] at hstep
    cases hstep
    rw [hres1] at hres
    cases hres
    have hlength := congrArg length (hcalls1.symm.trans hcalls)
    rw [length_map, length_map] at hlength
    exact (withdrawn_sublist safi l).eq_of_length hlength
  · intro hall
    refine ⟨s', _, hput, happ.data, fun refused st rest endp attributeLen attr _ hseen hunread hendp => ?_⟩
    obtain ⟨st', res, hstep, hgetp, hres, hcalls⟩ := @unreach_run σ afi env safi l hfam hvpn6 hafc hne hrd st rest endp
      ⟨hlen, hseen, hunread, hendp⟩ refused attributeLen attr
    exact ⟨st', res, hstep, hgetp, hres, by rw [hcalls, hall]⟩

omit hfam hvpn6 hafc hne hrd hsize in
theorem withdrawnNlri_length (l : List (MpRoute afi)) : (withdrawnNlri safi l).length = (reachNlri safi l).length := by
  have hwire : ∀ r : MpRoute afi, (r.wire safi [0, 0, 0]).length = (r.wire safi r.label).length := by
    intro r
    unfold MpRoute.wire
    split
    · simp only [length_cons, length_append, r.label_length, length_nil]
    · rfl
  simp [withdrawnNlri, reachNlri, hwire]

/-- For the families other than IPv4 unicast, MP_REACH_NLRI comes over exactly where the family is not a VPN, a second
next hop is of the link and no IPv6 unicast prefix is; and MP_UNREACH_NLRI exactly where no IPv6 unicast prefix is of
the link and the route distinguishers of a VPN have types that are known. -/
theorem mpNlri_agrees_iff (hnh : heldNexthop afi safi attr = some nh)
    (hroom : (mpTlv .mpReachNlri (reachValue afi.code safi.code nh (reachNlri safi l))).wire.length ≤ s.writeable) :
    (ReachAgrees env speaker safi attr l s ↔
      safi ≠ .mplsVpn ∧ (∀ addr addr2, nh = .both addr addr2 → linkLocal addr2.octets = true) ∧
        ∀ r ∈ l, skipped safi r = false) ∧ (UnreachAgrees env speaker safi l s ↔
      (∀ r ∈ l, skipped safi r = false) ∧ (safi = .mplsVpn → ∀ r ∈ l, rdKnown r = true)) := by
  refine ⟨reachAgrees_iff hfam hvpn6 hafc hnh hne hrd hsize hroom, unreachAgrees_iff hfam hvpn6 hafc hne hrd hsize ?_⟩
  refine le_trans ?_ hroom
  have hlen := @withdrawnNlri_length afi safi l
  simp only [mpTlv_wire_length, unreachValue_length, reachValue_length, unreachNlri]
  omega

end Agreement

/-! ### Samples -/

/-- 2001:db8::/32. -/
def sampleRoute : MpRoute .ip6 := { p := sampleNode.p }

/-- The next hop 2001:db8::. -/
def sampleReachAttr : Attr :=
  { extra := some { mpNexthopLen := 16, mpNexthopGlobal := ⟨[0x20, 0x01, 0x0d, 0xb8] ++ replicate 11 0 ++ [1], rfl⟩ } }

/-- A prefix of IPv6 unicast comes over and is withdrawn again. -/
theorem mpNlri_agrees_ip6 :
    ReachAgrees sampleEnv sampleReceiver .unicast sampleReachAttr [sampleRoute] (streamNew 4096) ∧
    UnreachAgrees sampleEnv sampleReceiver .unicast [sampleRoute] (streamNew 4096) := by
  obtain ⟨hrch, hunreach⟩ :=
    @mpNlri_agrees_iff Unit .ip6 sampleEnv sampleReceiver .unicast sampleReachAttr _ [sampleRoute]
    (streamNew 4096) (by decide) (by decide) rfl (by decide) nofun le_rfl rfl (by decide)
  refine ⟨hrch.2 ⟨by decide, nofun, ?_⟩, hunreach.2 ⟨?_, nofun⟩⟩
  all_goals
    intro r hr
    rw [mem_singleton.1 hr]
    decide

/-- 10.0.0.0/8 of a VPN with the route distinguisher 1:1. -/
def sampleVpnRoute : MpRoute .ip :=
  { p := ⟨8, [10, 0, 0, 0], rfl, by decide⟩, prd := some ⟨[0, 0, 0, 1, 0, 0, 0, 1], rfl⟩ }

/-- A prefix of a VPN does not come over. -/
theorem not_reachAgrees_vpn :
    ¬ ReachAgrees sampleEnv sampleReceiver .mplsVpn { extra := some {} } [sampleVpnRoute] (streamNew 4096) := by
  rw [reachAgrees_iff (by decide) (by decide) rfl rfl (by decide) (by simp [sampleVpnRoute]) le_rfl (by decide)]
  exact fun h => h.1 rfl

end Tarpan.Bgpd
