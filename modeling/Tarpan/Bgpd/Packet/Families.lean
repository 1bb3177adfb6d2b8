/-
MP_REACH_NLRI and MP_UNREACH_NLRI of an UPDATE through the whole of `bgp_update_receive`. What the loop of
`bgp_attr_parse` has found of them is left alone by its checks, so that an UPDATE that is accepted leads to the calls
for the routes, in the attributes that are left after the checks.
-/
import Tarpan.Base.Frames
import Tarpan.Bgpd.Packet.Multiprotocol

namespace Tarpan.Bgpd

open Base Lib AttrParser List Option

variable {σ : Type}

/-! ## The checks -/

/-- The buffer, the routes of the multiprotocol attributes and their next hop stay. -/
structure SamePacket (st st' : ParseState σ) : Prop where
  ibuf : st'.ibuf = st.ibuf
  mpUpdate : st'.mpUpdate = st.mpUpdate
  mpWithdraw : st'.mpWithdraw = st.mpWithdraw
  nexthop : parsedNexthop st'.attr = parsedNexthop st.attr

instance : IsPreorder (ParseState σ) SamePacket where
  refl _ := ⟨rfl, rfl, rfl, rfl⟩
  trans _ _ _ h h' := ⟨h'.ibuf.trans h.ibuf, h'.mpUpdate.trans h.mpUpdate, h'.mpWithdraw.trans h.mpWithdraw,
    h'.nexthop.trans h.nexthop⟩

section Checks
variable {env : ParserEnv σ}

theorem samePacket_notify (err : UpdateErr) (data : List UInt8) :
    Frames SamePacket (notify err data : AttrParser σ Unit) :=
  .of_modify fun _ => ⟨rfl, rfl, rfl, rfl⟩

theorem samePacket_modifyAttr {f : Attr → Attr} (hf : ∀ attr, (f attr).extra = attr.extra) :
    Frames SamePacket (modifyAttr f : AttrParser σ Unit) :=
  .of_modify fun st => by exact ⟨rfl, rfl, rfl, congrArg (Option.bind · _) (hf st.attr)⟩

theorem samePacket_ensureTarpan : Frames SamePacket (ensureTarpan env) := by
  refine Frames.of_get.bind fun st => ?_
  split
  · exact .of_pure _
  · refine Frames.bind ?_ fun _ => samePacket_modifyAttr fun _ => rfl
    intro st a st' h
    obtain ⟨_, -, h⟩ := map_eq_some_iff.1 h
    cases h
    exact ⟨rfl, rfl, rfl, rfl⟩

theorem samePacket_bgpAttrCheck : Frames SamePacket (bgpAttrCheck env) := by
  refine Frames.of_get.bind fun st => ?_
  split
  · exact .of_pure _
  · exact (samePacket_notify _ _).bind fun _ => .of_pure _

/-- The aggregator shares a record with the next hop. -/
theorem mungeAggregator_nexthop {st : ParseState σ} {attr : Attr} {ignore : Bool}
    (h : mungeAggregator st = some (attr, ignore)) : parsedNexthop attr = parsedNexthop st.attr := by
  unfold mungeAggregator at h
  split_ifs at h with h4 hagg
  · obtain ⟨extra, hextra, h⟩ := bind_eq_some_iff.1 h
    split_ifs at h <;> cases h
    · rfl
    · rw [parsedNexthop, parsedNexthop, hextra]
      rfl
  · cases h
    cases hextra : st.attr.extra <;> rw [parsedNexthop, parsedNexthop, hextra] <;> rfl
  · cases h
    rfl

theorem samePacket_bgpAttrMungeAs4Attrs : Frames SamePacket (bgpAttrMungeAs4Attrs env) := by
  intro st ret st' h
  unfold bgpAttrMungeAs4Attrs at h
  split at h
  · cases h
    exact refl st
  · split_ifs at h
    · cases h
      exact refl st
    · obtain ⟨⟨attr, ignore⟩, hmunge, h⟩ := bind_eq_some_iff.1 h
      have hnexthop := mungeAggregator_nexthop hmunge
      dsimp only at h
      split_ifs at h
      · obtain ⟨_, -, h⟩ := bind_eq_some_iff.1 h
        obtain ⟨_, -, h⟩ := bind_eq_some_iff.1 h
        cases h
        exact ⟨rfl, rfl, rfl, hnexthop⟩
      · cases h
        exact ⟨rfl, rfl, rfl, hnexthop⟩

theorem samePacket_bgpAttrAspathCheck : Frames SamePacket (bgpAttrAspathCheck env) := by
  have herr : Frames SamePacket (do notify .malAsPath []; return .error : AttrParser σ AttrParseRet) :=
    (samePacket_notify _ _).bind fun _ => .of_pure _
  refine Frames.of_get.bind fun st => ?_
  dsimp only
  split
  · exact herr
  refine Frames.of_get.bind fun st => ?_
  split
  · exact herr
  split
  · refine Frames.bind ?_ fun _ => (samePacket_modifyAttr fun _ => by rfl).bind fun _ => .of_pure _
    intro st a st' h
    obtain ⟨_, -, h⟩ := bind_eq_some_iff.1 h
    cases h
    exact refl st
  · exact .of_pure _

theorem samePacket_bgpAttrFinish : Frames SamePacket (bgpAttrFinish env) := by
  refine Frames.of_get.bind fun st => ?_
  split
  · refine samePacket_bgpAttrMungeAs4Attrs.bind fun ret => ?_
    split
    · exact samePacket_bgpAttrAspathCheck
    · exact (samePacket_notify _ _).bind fun _ => .of_pure _
  · exact .of_pure _

/-- What is accepted holds the routes that the loop has found. -/
theorem bgpAttrParse_samePacket {size : Nat} {st st' st'' : ParseState σ}
    (hloop : bgpAttrLoop env (st.ibuf.getp + size) size st = some (none, st'))
    (hparse : bgpAttrParse env size st = some (.proceed, st'')) :
    SamePacket st' st'' := by
  unfold bgpAttrParse at hparse
  rw [run_bind (getp_run _), run_bind hloop] at hparse
  dsimp only at hparse
  rw [run_bind (getp_run _)] at hparse
  split_ifs at hparse
  · cases hparse
  · refine samePacket_ensureTarpan.bind (fun _ => samePacket_bgpAttrCheck.bind fun ret => ?_) _ _ _ hparse
    split
    · exact samePacket_bgpAttrFinish
    · exact .of_pure _

end Checks

/-! ## The whole UPDATE -/

section Update
variable {env : ParserEnv σ} {afi : Afi} {safi : Safi} {ibuf : Stream} {speaker : Speaker σ} {st st' : ParseState σ}
  {attributeLen : UInt16} {block : List UInt8}

/-- An UPDATE of attributes alone is accepted, and `st` is left after the checks. -/
structure Accepted (env : ParserEnv σ) (attributeLen : UInt16) (block : List UInt8) (ibuf : Stream)
    (speaker : Speaker σ) (st : ParseState σ) : Prop where
  established : env.peer.status = .established
  update : UpdateBlock attributeLen block ibuf
  parse : bgpAttrParse env attributeLen.toNat { ibuf := (ibuf.advance 2).advance 2, speaker } = some (.proceed, st)
  store : st.speaker.store.Ok
  tarpan : ∃ tarpan, st.attr.tarpan = some tarpan ∧ st.speaker.store.Live tarpan

/-- The attribute is the last one: the loop has taken `n` others before it. -/
structure EndsWith (env : ParserEnv σ) (attributeLen : UInt16) (ibuf : Stream) (speaker : Speaker σ) (t : Tlv) (n : Nat)
    (last : ParseState σ) : Prop where
  steps : AttrSteps env (ibuf.getp + 4 + attributeLen.toNat) n { ibuf := (ibuf.advance 2).advance 2, speaker } last
  lt : n < attributeLen.toNat
  comes : t.Comes [] (ibuf.getp + 4 + attributeLen.toNat) last
  endp : last.ibuf.getp + t.wire.length = ibuf.getp + 4 + attributeLen.toNat

section
variable (h : Accepted env attributeLen block ibuf speaker st)
include h

/-- The loop ends with the last attribute. -/
theorem EndsWith.samePacket {t : Tlv} {n : Nat} {last : ParseState σ}
    (hl : EndsWith env attributeLen ibuf speaker t n last)
    (hstep : bgpAttrStep env (ibuf.getp + 4 + attributeLen.toNat) last = some (none, st'))
    (hgetp : st'.ibuf.getp = last.ibuf.getp + t.wire.length) : SamePacket st' st := by
  have hlt : last.ibuf.getp < ibuf.getp + 4 + attributeLen.toNat := by
    have := t.wire_length_ge
    have := hl.endp
    omega
  have hloop := hl.steps.loop (attributeLen.toNat - n)
  rw [Nat.add_sub_cancel' hl.lt.le,
    (AttrSteps.step hlt hstep (.refl _)).loop_ends (hgetp.trans hl.endp) (Nat.sub_pos_of_lt hl.lt),
    ← h.update.attributes.2] at hloop
  exact bgpAttrParse_samePacket hloop h.parse

/-- The UPDATE leads to the calls for the routes of both attributes of a family, where the family is configured. -/
theorem Accepted.bgpUpdateReceive_calls {refused : List RouteCall → RouteCall → Bool} {calls : List RouteCall}
    (hafc : env.peer.afc afi safi = true) (hfam : ¬ (afi = .ip ∧ safi = .unicast))
    (hvpn6 : ¬ (afi = .ip6 ∧ safi = .mplsVpn)) (hend : st.ibuf.getp = ibuf.getp + 4 + attributeLen.toNat)
    (hupd : st.mpUpdate.Of afi safi) (hwdr : st.mpWithdraw.Of afi safi)
    (hrts : mpBoth refused (some st.attr) st.mpUpdate st.mpWithdraw afi safi [] = some calls) :
    ∃ res st', bgpUpdateReceive env refused ibuf.readable { ibuf, speaker } = some (res, st') ∧ res.calls = calls := by
  obtain ⟨res, hres, hcalls⟩ := updateFamilies_of hafc hfam hvpn6 hupd hwdr hrts attributeLen.toNat
  obtain ⟨tarpan, htar, hlive⟩ := h.tarpan
  obtain ⟨speaker', hunintern⟩ := bgpAttrUninternSub_run htar h.store hlive
  have hnlri : updateNlriParse (ibuf.getp + ibuf.readable) st = some (some {}, st) := by
    unfold updateNlriParse
    rw [run_bind (getp_run _), hend, h.update.readable, if_pos (by omega)]
    rfl
  refine ⟨res, { st with speaker := speaker' }, ?_, hcalls⟩
  rw [h.update.bgpUpdateReceive_parsed env refused h.established h.parse, if_neg nofun]
  unfold bgpUpdateRoutes
  rw [run_bind hnlri]
  dsimp only
  rw [run_bind (get_run _), if_neg nofun, hres]
  exact run_bind (f := fun _ => pure res) hunintern

end

/-! ### An attribute at the end -/

variable {n : Nat} {last : ParseState σ} {nh : MpNexthop} {l : List (MpRoute afi)}
  (h : Accepted env attributeLen block ibuf speaker st) (hafc : env.peer.afc afi safi = true)
  (hfam : ¬ (afi = .ip ∧ safi = .unicast)) (hvpn6 : ¬ (afi = .ip6 ∧ safi = .mplsVpn)) (hne : l ≠ [])
  (refused : List RouteCall → RouteCall → Bool)
include h hafc hfam hvpn6 hne

/-- The routes of MP_REACH_NLRI at the end of an UPDATE that is accepted are announced, with the attributes of the
UPDATE and the next hop. -/
theorem bgpUpdateReceive_mpReach (hvpn : safi ≠ .mplsVpn)
    (hl : EndsWith env attributeLen ibuf speaker
      (mpTlv .mpReachNlri (reachValue afi.code safi.code nh (reachNlri safi l))) n last) (hwdr : st.mpWithdraw = {}) :
    ∃ res st', bgpUpdateReceive env refused ibuf.readable { ibuf, speaker } = some (res, st') ∧
      parsedNexthop st.attr = some nh.kept ∧
      res.calls = callsMade refused []
        ((l.filter fun r => !skipped safi r).map (MpRoute.call safi (some st.attr) [])) := by
  obtain ⟨st1, hstep, hgetp, hkept, hupd⟩ := hl.comes.reach env (flatMap_wire_ne_nil hne _) (reachNlri_sane hvpn l)
  have hsame := hl.samePacket h hstep hgetp
  rw [← hsame.mpUpdate] at hupd
  rw [← hsame.ibuf] at hgetp
  have hof : st.mpUpdate.Of afi safi := fun _ => by rw [hupd]; exact ⟨rfl, (if_neg hvpn).symm⟩
  obtain ⟨res, st', hreceive, hcalls⟩ := h.bgpUpdateReceive_calls hafc hfam hvpn6 (hgetp.trans hl.endp) hof
    (hwdr ▸ fun h => absurd rfl h) (hupd ▸ hwdr ▸ mpBoth_reach hfam hne hvpn refused st.attr)
  exact ⟨res, st', hreceive, hsame.nexthop.trans hkept, hcalls⟩

/-- The routes of MP_UNREACH_NLRI at the end of an UPDATE that is accepted are withdrawn. -/
theorem bgpUpdateReceive_mpUnreach (hrd : safi = .mplsVpn → ∀ r ∈ l, r.prd.isSome)
    (hl : EndsWith env attributeLen ibuf speaker
      (mpTlv .mpUnreachNlri (unreachValue (unreachNlri afi safi (withdrawnNlri safi l)))) n last)
      (hupd : st.mpUpdate = {}) :
    ∃ res st', bgpUpdateReceive env refused ibuf.readable { ibuf, speaker } = some (res, st') ∧
      res.calls = (withdrawn safi l).map (MpRoute.call safi none [0, 0, 0]) := by
  obtain ⟨st1, hstep, hgetp, hwdr⟩ := hl.comes.unreach env (withdrawnNlri_sane l)
  have hsame := hl.samePacket h hstep hgetp
  rw [← hsame.mpWithdraw] at hwdr
  rw [← hsame.ibuf] at hgetp
  have hof : st.mpWithdraw.Of afi safi := fun _ => by rw [hwdr]; exact ⟨rfl, rfl⟩
  exact h.bgpUpdateReceive_calls hafc hfam hvpn6 (hgetp.trans hl.endp) (hupd ▸ fun h => absurd rfl h) hof
    (hupd ▸ hwdr ▸ mpBoth_unreach hfam hvpn6 hne hrd refused (some st.attr))

end Update

end Tarpan.Bgpd
