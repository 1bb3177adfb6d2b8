/-
An UPDATE whose only attribute is MP_UNREACH_NLRI, which is what withdraws the routes of every family
but IPv4 unicast and what marks the end of such a RIB. The parser reads it to its end, but then gives
it a Tarpan attribute of its own, so that `bgp_attr_check` no longer finds MP_UNREACH_NLRI alone and
asks for the well-known attributes.
-/
import Tarpan.Bgpd.Attr.Tlv
import Tarpan.Bgpd.Packet.Update

namespace Tarpan.Bgpd

open Base Lib AttrParser List Option

variable {σ : Type}

/-! ## The attribute -/

section
variable (extlen : Bool) (nlri : BgpNlri)

/-- The flags of the attribute, with a length in two octets or in one. -/
def unreachFlags : UInt8 := if extlen then bgpAttrFlagOptional ||| bgpAttrFlagExtlen else bgpAttrFlagOptional

def unreachLength (n : UInt16) : List UInt8 := beBytes (if extlen then 2 else 1) n.toNat

def unreachHeader (n : UInt16) : List UInt8 :=
  unreachFlags extlen :: BgpAttr.mpUnreachNlri.code :: unreachLength extlen n

def unreachValue : List UInt8 := beBytes 2 nlri.afi.toNat ++ nlri.safi :: nlri.nlri

/-- The check of the NLRI passes. -/
def BgpNlri.Sane : Prop := nlri.safi ≠ safiMplsLabeledVpn → nlriSane nlri.afi nlri.nlri = true

/-- The attribute fits its length field. -/
structure UnreachFits (n : UInt16) : Prop where
  length : n.toNat = (unreachValue nlri).length
  short : extlen = false → n.toNat < 256

@[simp] theorem unreachValue_length : (unreachValue nlri).length = 3 + nlri.nlri.length := by
  simp only [unreachValue, length_append, beBytes_length, length_cons]
  omega

def ParseState.unreach (st : ParseState σ) (n : Nat) (nlri : BgpNlri) : ParseState σ :=
  { st with
    ibuf := st.ibuf.advance n
    mpWithdraw := nlri
    attr := { st.attr with flag := st.attr.flag ||| BgpAttr.mpUnreachNlri.flagBit } }

theorem mpNlriCheck_run {nlri : BgpNlri} (h : nlri.Sane) (st : ParseState σ) :
    mpNlriCheck nlri.afi nlri.safi nlri.nlri st = some (true, st) := by
  unfold mpNlriCheck bgpNlriSanityCheck
  split
  · rename_i hsafi
    rw [if_pos (h hsafi)]
    rfl
  · rfl

theorem bgpMpUnreachParse_run {st : ParseState σ} {args : BgpAttrParserArgs} {nlri : BgpNlri} {rest : List UInt8}
    (hsane : nlri.Sane) (hlen : args.length = (unreachValue nlri).length)
    (hunread : st.ibuf.unread = unreachValue nlri ++ rest) :
    bgpMpUnreachParse args st = some (.proceed, st.unreach args.length nlri) := by
  have hread := le_readable hunread
  rw [unreachValue_length] at hlen hread
  obtain ⟨afi, safi, octets⟩ := nlri
  rw [unreachValue] at hunread
  have hdrop2 : (st.ibuf.advance 2).unread = safi :: octets ++ rest := by
    rw [unread_advance, hunread]
    simp
  have hdrop3 : (st.ibuf.advance 3).unread = octets ++ rest := by
    rw [show 3 = 2 + 1 from rfl, ← advance_advance, unread_advance, hdrop2]
    rfl
  have hleft : args.length - 3 ≤ (st.ibuf.advance 3).readable := by
    rw [hlen, Nat.add_sub_cancel_left]
    exact le_readable hdrop3
  have hpeek : (st.ibuf.advance 3).unread.take (args.length - 3) = octets := by
    rw [hdrop3, hlen, Nat.add_sub_cancel_left, take_left]
  unfold bgpMpUnreachParse
  simp only [run_bind (get_run _)]
  rw [if_neg (by omega)]
  simp only [bind_run, getw_run hunread, bind_some]
  rw [getc_run (show ({ st with ibuf := st.ibuf.advance 2 } : ParseState σ).ibuf.unread = _ from hdrop2)]
  simp only [bind_some, advance_advance, peek_run, hpeek]
  rw [mpNlriCheck_run (show BgpNlri.Sane ⟨afi, safi, octets⟩ from hsane)]
  simp only [bind_some, Bool.not_true, Bool.false_eq_true, if_false, bind_run, modify_run]
  rw [forwardGetp_run hleft]
  simp only [bind_some, setFlag_run, advance_advance, ParseState.unreach, hlen]
  rw [Nat.add_sub_cancel_left]

/-! ## The attribute list -/

theorem unreachFlags_masked : 0xf0 &&& unreachFlags extlen = unreachFlags extlen := by
  cases extlen <;> rfl

end

theorem unreachFlags_extlen (extlen : Bool) : checkFlag (unreachFlags extlen) bgpAttrFlagExtlen = extlen := by
  cases extlen <;> rfl

variable (env : ParserEnv σ) {st st' : ParseState σ} {tarpan : TarpanAttr} {rest : List UInt8} {sp : Speaker σ}
  {nlri : BgpNlri} {extlen : Bool} {endp : Nat} {attributeLen : UInt16}

theorem unreachFlags_valid (extlen : Bool) (a : BgpAttr) (hin : a.code.toNat < attrFlagsValuesMax)
    (hval : attrFlagsValues a.code = bgpAttrFlagOptional) (length startp total : Nat) :
    bgpAttrFlagInvalid env ⟨length, a.code, unreachFlags extlen, startp, total⟩ = false := by
  unfold bgpAttrFlagInvalid
  dsimp only
  rw [if_neg hin.not_gt, if_pos hin, hval]
  cases extlen <;> rfl

def unreachTlv (extlen : Bool) (nlri : BgpNlri) : Tlv :=
  ⟨unreachFlags extlen, BgpAttr.mpUnreachNlri.code, unreachValue nlri⟩

theorem unreachTlv_extlen (extlen : Bool) (nlri : BgpNlri) : (unreachTlv extlen nlri).extlen = extlen :=
  unreachFlags_extlen extlen

section
variable {extlen : Bool} {nlri : BgpNlri} {n : UInt16} (h : UnreachFits extlen nlri n)
include h

theorem UnreachFits.wire : unreachHeader extlen n ++ unreachValue nlri = (unreachTlv extlen nlri).wire := by
  rw [Tlv.wire, Tlv.header, Tlv.lengthOctets, unreachTlv_extlen, unreachHeader, unreachLength, h.length]
  rfl

theorem UnreachFits.wellFormed : (unreachTlv extlen nlri).WellFormed := by
  refine ⟨unreachFlags_masked extlen, ?_⟩
  rw [unreachTlv_extlen]
  change (unreachValue nlri).length < _
  rw [← h.length]
  cases extlen with
  | true => exact n.toNat_lt
  | false => exact h.short rfl

end

@[simp] theorem unreachHeader_length (extlen : Bool) (n : UInt16) :
    (unreachHeader extlen n).length = 2 + if extlen then 2 else 1 := by
  simp only [unreachHeader, unreachLength, length_cons, beBytes_length]
  omega

/-! ## The whole list -/

section
variable (hreceived : tarpanReceived env.tarpanActiveHandler env.peer.as st.speaker tarpanMessageNew env.newTarpan =
  some (tarpan, sp))
include hreceived in
theorem ensureTarpan_run (hflag : st.attr.has .tarpan = false) : ensureTarpan env st = some ((), { st with
      speaker := sp
      attr := { st.attr with flag := st.attr.flag ||| BgpAttr.tarpan.flagBit, tarpan := some tarpan } }) := by
  unfold ensureTarpan
  rw [run_bind (get_run _), hflag, if_neg Bool.false_ne_true, bind_run, onSpeaker, hreceived]
  rfl

theorem bgpAttrCheck_missing {type : BgpAttr} (h : attrMissing env st.attr = some type) : bgpAttrCheck env st =
      some (.error, { st with notified := st.notified ++ [.updateErr .missAttr [type.code]] }) := by
  unfold bgpAttrCheck
  rw [run_bind (get_run _), h]
  rfl

/-- The attribute that is found to be missing. -/
def missingAlone (env : ParserEnv σ) : BgpAttr := if env.peer.sort = .ibgp then .localPref else .nextHop

/-- With the Tarpan attribute set, MP_UNREACH_NLRI alone is not enough. -/
theorem attrMissing_unreach {attr : Attr}
    (h : attr.flag = 0 ||| BgpAttr.mpUnreachNlri.flagBit ||| BgpAttr.tarpan.flagBit) :
    attrMissing env attr = some (missingAlone env) := by
  have hzero : (attr.flag == 0) = false := by rw [h]; decide
  have hmp : (attr.flag == BgpAttr.mpUnreachNlri.flagBit) = false := by rw [h]; decide
  have hnext : attr.has .nextHop = false := by rw [Attr.has, h]; decide
  have hrch : attr.has .mpReachNlri = false := by rw [Attr.has, h]; decide
  have hpref : attr.has .localPref = false := by rw [Attr.has, h]; decide
  unfold attrMissing missingAlone
  simp only [hzero, Bool.and_false, hmp, Bool.false_eq_true, if_false, hnext, hrch, hpref, and_true]
  split <;> rfl

include hreceived in
/-- The end of `bgp_attr_parse` where the loop has found MP_UNREACH_NLRI alone. -/
theorem bgpAttrParse_of_loop {size : Nat} (hloop : bgpAttrLoop env (st'.ibuf.getp + size) size st' = some (none, st))
    (hdone : st.ibuf.getp = st'.ibuf.getp + size) (hflag : st.attr.flag = 0 ||| BgpAttr.mpUnreachNlri.flagBit) :
    bgpAttrParse env size st' = some (.error, { st with
      speaker := sp
      attr := { st.attr with flag := st.attr.flag ||| BgpAttr.tarpan.flagBit, tarpan := some tarpan }
      notified := st.notified ++ [.updateErr .missAttr [(missingAlone env).code]] }) := by
  have hnone : st.attr.has .tarpan = false := by rw [Attr.has, hflag]; decide
  unfold bgpAttrParse
  rw [run_bind (getp_run _), run_bind hloop]
  dsimp only
  rw [run_bind (getp_run _), if_neg (not_not_intro hdone), run_bind (ensureTarpan_run env hreceived hnone), bind_run,
    bgpAttrCheck_missing env (attrMissing_unreach env (by rw [hflag]))]
  rfl

variable (hsane : nlri.Sane) (hwell : (unreachTlv extlen nlri).WellFormed)
  (hseen : st.seen BgpAttr.mpUnreachNlri.code = false)
  (hunread : st.ibuf.unread = (unreachTlv extlen nlri).wire ++ rest)
include hsane hwell hseen hunread

theorem bgpAttrStep_unreach :
    ∃ st', bgpAttrStep env (st.ibuf.getp + (unreachTlv extlen nlri).wire.length) st = some (none, st') ∧
      st'.ibuf.getp = st.ibuf.getp + (unreachTlv extlen nlri).wire.length ∧
      st'.attr = { st.attr with flag := st.attr.flag ||| BgpAttr.mpUnreachNlri.flagBit } ∧
      st'.notified = st.notified ∧ st'.speaker = st.speaker := by
  have hrun := @bgpMpUnreachParse_run σ _ ((unreachTlv extlen nlri).args st.ibuf.getp) _ rest hsane rfl
    (headed_unread hunread)
  have hgetp : ((st.headed (unreachTlv extlen nlri)).ibuf.advance (unreachValue nlri).length).getp =
      st.ibuf.getp + (unreachTlv extlen nlri).wire.length := by
    rw [ParseState.headed, advance_advance, Tlv.wire_length]
    exact advance_getp (Tlv.wire_length _ ▸ le_readable hunread)
  have hfl := unreachFlags_valid env extlen .mpUnreachNlri (by decide) (by decide)
  exact ⟨_, bgpAttrStep_taken env hwell hseen hunread le_rfl (hfl ..) hrun hgetp, hgetp, rfl, rfl, rfl⟩
include hreceived in
/-- `bgp_attr_parse` on MP_UNREACH_NLRI alone: an error, and a NOTIFICATION of a missing attribute. -/
theorem bgpAttrParse_unreach (hflag : st.attr.flag = 0) :
    ∃ st', bgpAttrParse env (unreachTlv extlen nlri).wire.length st = some (.error, st') ∧
      st'.notified = st.notified ++ [.updateErr .missAttr [(missingAlone env).code]] ∧
      st'.attr.tarpan = some tarpan ∧ st'.speaker = sp := by
  obtain ⟨st', hstep, hdone, hattr, hntf, hspk⟩ := bgpAttrStep_unreach env hsane hwell hseen hunread
  have hpos : 0 < (unreachTlv extlen nlri).wire.length := Nat.lt_of_lt_of_le (by decide) (Tlv.wire_length_ge _)
  have hloop := (AttrSteps.step (Nat.lt_add_of_pos_right hpos) hstep (.refl _)).loop_ends hdone hpos
  have hbit : st'.attr.flag = 0 ||| BgpAttr.mpUnreachNlri.flagBit := by rw [hattr, ← hflag]
  rw [← hspk] at hreceived
  rw [← hntf]
  exact ⟨_, bgpAttrParse_of_loop env hreceived hloop hdone hbit, rfl, rfl, rfl⟩

end

/-! ## The UPDATE -/

/-- The octets after the header of an UPDATE with MP_UNREACH_NLRI alone: no withdrawn routes, and
attributes of `attributeLen` octets. -/
def unreachUpdate (extlen : Bool) (nlri : BgpNlri) (n attributeLen : UInt16) : List UInt8 :=
  beBytes 2 (0 : UInt16).toNat ++ (beBytes 2 attributeLen.toNat ++ (unreachHeader extlen n ++ unreachValue nlri))

theorem withdrawnParse_empty
    (hunread : st.ibuf.unread = beBytes 2 (0 : UInt16).toNat ++ rest) (hendp : st.ibuf.getp + 2 ≤ endp) :
    withdrawnParse endp st = some (some {}, { st with ibuf := st.ibuf.advance 2 }) := by
  have hgetp : (st.ibuf.advance 2).getp = st.ibuf.getp + 2 := advance_getp (le_readable hunread)
  unfold withdrawnParse
  rw [run_bind (getp_run _), if_neg (Nat.not_lt.2 hendp), run_bind (getw_run hunread), run_bind (getp_run _)]
  rw [hgetp, UInt16.toNat_zero, Nat.add_zero, if_neg (Nat.not_lt.2 hendp)]
  rfl

theorem attributesParse_run {ret : AttrParseRet} (hunread : st.ibuf.unread = beBytes 2 attributeLen.toNat ++ rest)
    (hendp : endp = st.ibuf.getp + (2 + attributeLen.toNat)) (hpos : attributeLen.toNat ≠ 0)
    (hparse : bgpAttrParse env attributeLen.toNat { st with ibuf := st.ibuf.advance 2 } = some (ret, st')) :
    attributesParse env endp st = some (some (attributeLen.toNat, ret), st') := by
  have hgetp : (st.ibuf.advance 2).getp = st.ibuf.getp + 2 := advance_getp (le_readable hunread)
  unfold attributesParse
  rw [bind_run, getp_run, bind_some, if_neg (by dsimp only; omega), run_bind (getw_run hunread), run_bind (getp_run _)]
  dsimp only
  rw [hgetp, if_neg (by omega), if_neg hpos, bind_run, hparse]
  rfl

theorem bgpAttrUninternSub_run (htar : st.attr.tarpan = some tarpan)
    (hs : st.speaker.store.Ok) (hlive : st.speaker.store.Live tarpan) :
    ∃ speaker, bgpAttrUninternSub st = some ((), { st with speaker }) := by
  obtain ⟨s', hunintern, -⟩ := TarpanStore.tarpanUnintern_spec hs hlive
  refine ⟨{ st.speaker with store := s' }, ?_⟩
  unfold bgpAttrUninternSub
  rw [run_bind (get_run _), htar]
  dsimp only
  rw [onSpeaker, hunintern]
  rfl

/-- What comes is an UPDATE of attributes alone. -/
structure UpdateBlock (attributeLen : UInt16) (block : List UInt8) (ibuf : Stream) : Prop where
  unread : ibuf.unread = beBytes 2 (0 : UInt16).toNat ++ (beBytes 2 attributeLen.toNat ++ block)
  length : block.length = attributeLen.toNat
  pos : attributeLen.toNat ≠ 0

namespace UpdateBlock

variable {block : List UInt8} {ibuf : Stream} (h : UpdateBlock attributeLen block ibuf)
include h

theorem readable : ibuf.readable = 4 + attributeLen.toNat := by
  rw [← ibuf.unread_length, h.unread]
  simp only [length_append, beBytes_length, h.length]
  omega

/-- After the length of the withdrawn routes. -/
theorem advanced : (ibuf.advance 2).unread = beBytes 2 attributeLen.toNat ++ block ∧
    (ibuf.advance 2).getp = ibuf.getp + 2 := by
  refine ⟨?_, advance_getp (by rw [h.readable]; omega)⟩
  rw [unread_advance, h.unread]
  rfl

/-- The attributes. -/
theorem attributes :
    ((ibuf.advance 2).advance 2).unread = block ∧ ((ibuf.advance 2).advance 2).getp = ibuf.getp + 4 := by
  obtain ⟨hunread, hgetp⟩ := h.advanced
  refine ⟨?_, (advance_getp (le_readable hunread)).trans (congrArg (· + 2) hgetp)⟩
  rw [unread_advance, hunread]
  rfl

theorem bgpUpdateReceive_parsed (refused : List RouteCall → RouteCall → Bool) {speaker : Speaker σ} {ret : AttrParseRet}
    (hest : env.peer.status = .established)
    (hparse : bgpAttrParse env attributeLen.toNat { ibuf := (ibuf.advance 2).advance 2, speaker } = some (ret, st)) :
    bgpUpdateReceive env refused ibuf.readable { ibuf, speaker } = (if ret = .error then do
      bgpAttrUninternSub
      return { ret := -1, attrParseRet := ret }
    else bgpUpdateRoutes env refused (ibuf.getp + ibuf.readable) {} attributeLen.toNat ret) st := by
  obtain ⟨hunread, hgetp⟩ := h.advanced
  have hreadable := h.readable
  have hendp : ibuf.getp + ibuf.readable = (ibuf.advance 2).getp + (2 + attributeLen.toNat) := by omega
  have hattrs := @attributesParse_run σ env { ibuf := ibuf.advance 2, speaker } _ _ _ _ _ hunread hendp h.pos hparse
  unfold bgpUpdateReceive
  rw [if_neg (not_not_intro hest), run_bind (getp_run _),
    run_bind (withdrawnParse_empty h.unread (by dsimp only; omega))]
  dsimp only
  rw [run_bind hattrs]

end UpdateBlock

/-- An UPDATE with MP_UNREACH_NLRI alone is refused: the result is -1, a NOTIFICATION says that an
attribute is missing, and no route is touched. -/
theorem bgpUpdateReceive_unreach (refused : List RouteCall → RouteCall → Bool) {ibuf : Stream}
    {speaker : Speaker σ} {n : UInt16}
    (hest : env.peer.status = .established) (hs : speaker.store.Ok) (hfr : speaker.store.Fresh env.newTarpan)
    (hsane : nlri.Sane) (hfits : UnreachFits extlen nlri n)
    (hlen : attributeLen.toNat = (unreachHeader extlen n).length + n.toNat)
    (hunread : ibuf.unread = unreachUpdate extlen nlri n attributeLen) :
    ∃ st', bgpUpdateReceive env refused ibuf.readable { ibuf, speaker } =
        some ({ ret := -1, attrParseRet := .error }, st') ∧
      st'.notified = [.updateErr .missAttr [(missingAlone env).code]] := by
  obtain ⟨tarpan, sp, hreceived, hok, hlive⟩ :=
    tarpanReceived_spec env.tarpanActiveHandler env.peer.as tarpanMessageNew hs hfr
  rw [unreachUpdate, hfits.wire] at hunread
  rw [hfits.length, ← length_append, hfits.wire] at hlen
  have hblock : UpdateBlock attributeLen (unreachTlv extlen nlri).wire ibuf := by
    refine ⟨hunread, hlen.symm, ?_⟩
    rw [hlen, Tlv.wire_length, Tlv.header_length]
    omega
  obtain ⟨st1, hparse, hntf, htar, rfl⟩ :=
    @bgpAttrParse_unreach σ env { ibuf := (ibuf.advance 2).advance 2, speaker } _ _ _ _ _
      hreceived hsane hfits.wellFormed rfl (hblock.attributes.1.trans (append_nil _).symm) rfl
  rw [← hlen] at hparse
  obtain ⟨speaker', hunintern⟩ := bgpAttrUninternSub_run htar hok hlive
  refine ⟨{ st1 with speaker := speaker' }, ?_, hntf⟩
  rw [hblock.bgpUpdateReceive_parsed env refused hest hparse, if_pos rfl, bind_run, hunintern]
  rfl

end Tarpan.Bgpd
