/-
Damping over whole runs. Flaps, withdrawals, updates and scans keep the lists of the records as they should be. The
reuse timer keeps them where none of the records that it meets has decayed to half the reuse limit: such a record is
freed from a list that it is not in, and with it the head of the other list may be lost.
-/
import Tarpan.Bgpd.Rib.Calls
import Tarpan.Bgpd.Rib.DampLists

namespace Tarpan.Bgpd

open Base List Option Function

section Damping
variable {α : Type} {env : RibEnv α} {s s' s'' s1 : Rib α} {a b : Nat} {rn : RibNode} {ri ri' : BgpPath α}
  {pend : List Nat} {l : Option Nat → List Nat}

/-- No record that the reuse timer meets has decayed to half of the reuse limit. -/
def RibCall.NoneHalved (env : RibEnv α) (s : Rib α) : RibCall α → Prop
  | .reuseTimer tNow _ => ∀ b bdi ri, s.damp.info b = some bdi → s.path bdi.binfo = some ri → ri.flags .damped →
      bdi.index = s.damp.reuseOffset →
      env.damp.reuseLimit < 2 * bgpDampDecay env.damp (tNow - bdi.tUpdated) bdi.penalty
  | _ => True

namespace Rib

/-! ## Withdrawals, updates and scans -/

section
variable (h : s.Well env)
include h

section
variable (hri : s.path a = some ri)
include hri

theorem Well.newRecord (hb : ri.dampInfo = none) (bdi : DampInfo)
    (hnext : bdi.next = none) (hprev : bdi.prev = none) (hbinfo : bdi.binfo = a) (hrn : bdi.rn = ri.rn) :
    Ends (do
      let s1 ← ({ s.putDamp s.brk bdi with brk := s.brk + 1 } : Rib α).putDampInfo a (some s.brk)
      bgpDampListAdd s1 s.brk) fun s' => s.Keeps env s' ∧
        ∃ ri', s'.path a = some ri' ∧ ri'.dampInfo = some s.brk ∧ ri'.flags .damped = ri.flags .damped := by
  obtain ⟨l, hl⟩ := h.lists
  have hnone : s.record s.brk = none := by
    cases hr : s.record s.brk with
    | none => rfl
    | some r => exact absurd (hl.owner hr).1 (lt_irrefl _)
  have hinfo : s.damp.info s.brk = none := by
    exact map_eq_none_iff.1 hnone
  have hnot : ∀ k, s.brk ∉ l k := by
    intro k hk
    have := hl.mem hk
    rw [hnone] at this
    cases this
  have hfalse : ri.flags .damped = false := by
    refine Bool.eq_false_iff.2 fun hd => ?_
    have := hl.damped hri hd
    rw [hb] at this
    cases this
  let s0 : Rib α := { s.putDamp s.brk bdi with brk := s.brk + 1 }
  let ri1 : BgpPath α := { ri with extra := some { ri.getExtra with dampInfo := some s.brk } }
  have haside0 : s.Aside a s.brk s0 := by
    refine { (relisted_putDamp s s.brk bdi).aside a with brk := Nat.le_succ _, new := ?_ }
    intro c rc hrc hnone
    have hrc : s.path c = some rc := hrc
    rw [hrc] at hnone
    cases hnone
  have hlists0 : s0.dampLists = s.dampLists :=
    dampLists_putDamp (by simp [dampLists, hinfo, hnext]) (by simp [dampLists, hinfo, hprev])
  have hrec0 : s0.record s.brk = some (bdi.binfo, bdi.rn, bdi.index) := by
    refine record_of_info ?_
    rw [info_putDamp, if_pos rfl]
  refine (ends_modifyPath (s := s0) hri).bind ?_
  rintro s1 rfl
  have hputs : s0.Puts a ri1 (s0.putPath a ri1) := ⟨s0.pcount, rfl⟩
  have haside1 := hputs.aside (s := s0) hri rfl s.brk
  refine (ends_link (s := s0.putPath a ri1) (l := l) ?_ ?_ none ?_ hnot).mono fun s2 h2 => ?_
  · show s0.dampLists.Holds l
    rw [hlists0]
    exact hl.holds
  · intro c k hc
    show (s0.record c).isSome
    rw [haside0.record (by rintro rfl; exact hnot k hc)]
    exact hl.mem hc
  · show (s0.record s.brk).isSome
    rw [hrec0]
    rfl
  · obtain ⟨hlink, hholds, -⟩ := h2
    have haside := (haside0.trans haside1).trans ((hlink.relisted s.brk).aside a)
    have hri2 : s2.path a = some ri1 := by
      rw [hlink.path, hputs.path_self]
    refine ⟨h.lasting haside.toLasting ⟨_, hl.change hri (.inr ⟨hb, hnone⟩) haside hri2 hholds Lists.mem_update_cons
      (fun _ hc => hc) (.inl ⟨bdi.index, ?_, ?_, rfl, fun _ => ?_⟩)⟩, ri1, hri2, rfl, rfl⟩
    · rw [hlink.record]
      show s0.record s.brk = _
      rw [hrec0, hbinfo, hrn]
    · rw [hlink.brk]
      exact Nat.lt_succ_self _
    · rw [hfalse]
      exact ⟨Lists.mem_update_cons_self, by rintro ⟨⟩⟩

theorem Well.flap (tNow : Int) (attrChange : Bool) :
    Ends (dampFlap env s a ri tNow attrChange) fun r => s.Keeps env r.2.2 ∧
      ∃ ri', r.2.2.path a = some ri' ∧ ri'.dampInfo = some r.1 ∧ ri'.flags .damped = ri.flags .damped := by
  unfold dampFlap
  cases hb : ri.dampInfo with
  | none =>
    exact (h.newRecord hri hb
      { penalty := penaltyOf attrChange, startTime := tNow, tUpdated := tNow, binfo := a, rn := ri.rn }
      rfl rfl rfl rfl).chain fun _ hpost => .some hpost
  | some b =>
    obtain ⟨bdi, hbdi, -⟩ := h.info hri hb
    exact .next hbdi (.some ⟨h.mild (mild_putDamp hbdi rfl), ri, hri, hb, rfl⟩)

theorem Well.withdraw (tNow : Int) (attrChange : Bool) :
    Ends (bgpDampWithdraw env s a tNow attrChange) fun r => s.Keeps env r.2 := by
  refine .next hri ((h.flap hri tNow attrChange).bind ?_)
  rintro ⟨b, lastPenalty, s1⟩ ⟨h1, ri1, hri1, hb1, hdmp1⟩
  obtain ⟨bdi, hbdi, hbinfo, hrn⟩ := h1.well.info hri1 hb1
  refine .next hbdi (.ite (fun hne => ?_) fun _ => ?_)
  · rw [hrn, h1.rn hri hri1, hbinfo] at hne
    simp at hne
  -- the record and the flag of the withdrawal
  have hmild2 : s1.Mild (s1.putDamp b { bdi with lastrecord := .withdraw, tUpdated := tNow }) := mild_putDamp hbdi rfl
  have hri2 : (s1.putDamp b { bdi with lastrecord := .withdraw, tUpdated := tNow }).path a = some ri1 := hri1
  refine (quiet_bgpInfoPutFlags hri2 (by decide)).bind fun s3 h3 => ?_
  have hmild3 := hmild2.trans h3.mild
  have hkeeps3 := h1.keeps (h1.well.mild hmild3)
  obtain ⟨ri3, hri3, -⟩ := hmild3.path hri1
  have hb3 : ri3.dampInfo = some b := (hmild3.same id hri1 hri3).1.trans hb1
  have hdmp3 := (hmild3.same id hri1 hri3).2.trans hdmp1
  refine .ite (fun hd => ?_) fun hd => ?_
  · refine .ite (fun _ => ?_) fun _ => .some hkeeps3
    have hmv := hkeeps3.well.toReuse hri3 hb3 (.refl s3 a) hri3 (hdmp3.trans hd)
    rw [hdmp3.trans hd] at hmv
    exact hmv.chain fun _ hpost => .some (hkeeps3.keeps hpost)
  · refine .ite (fun _ => ?_) fun _ => .some hkeeps3
    refine (flips_bgpInfoPutFlags hri3).bind fun s4 h4 => ?_
    obtain ⟨hflips4, hri4⟩ := h4
    obtain ⟨bdi3, hbdi3, -⟩ := hkeeps3.well.info hri3 hb3
    obtain ⟨bdi4, hbdi4⟩ := exists_info (s := s4) (b := b) (by rw [hflips4.record, record_of_info hbdi3]; rfl)
    refine (mild_modifyDamp hbdi4 rfl).bind fun s5 h5 => ?_
    obtain ⟨ri5, hri5, -⟩ := h5.path hri4
    have hdmp5 : ri5.flags .damped = true := by
      rw [(h5.same id hri4 hri5).2, env.flagged_flags ri3 (by decide), if_pos (by decide)]
    have hmv := hkeeps3.well.toReuse hri3 hb3 (hflips4.trans (h5.flips a)) hri5 hdmp5
    rw [hdmp3, Bool.eq_false_iff.2 hd] at hmv
    exact hmv.chain fun _ hpost => .some (hkeeps3.keeps hpost)

theorem Well.updateStatus (hb : ri.dampInfo = some b) (penalty : Nat) :
    Ends (dampUpdateStatus env s a b (ri.flags .damped) penalty) fun r => s.Keeps env r.2 ∧
      ∃ ri', r.2.path a = some ri' ∧ ri'.dampInfo = some b := by
  refine .ite (fun _ => .some ⟨⟨.refl s, h⟩, ri, hri, hb⟩) fun _ => ?_
  refine .ite (fun hd => ?_) fun _ => .some ⟨⟨.refl s, h⟩, ri, hri, hb⟩
  exact .map (h.reuse hri hb hd.1)

theorem Well.update (tNow : Int) : Ends (bgpDampUpdate env s a tNow) fun r => s.Keeps env r.2 := by
  refine .next hri ?_
  cases hb : ri.dampInfo with
  | none => exact .some ⟨.refl s, h⟩
  | some b =>
    refine (quiet_bgpInfoPutFlags hri (by decide)).bind fun s1 h1 => ?_
    have hkeeps1 := h.quiet h1
    obtain ⟨ri1, hri1, -⟩ := h1.path hri
    have hsame1 := h1.same id hri hri1
    obtain ⟨bdi, hbdi, -⟩ := hkeeps1.well.info hri1 (hsame1.1.trans hb)
    refine .next hbdi ?_
    have hmild2 : s1.Mild (s1.putDamp b { bdi with
        lastrecord := .update, penalty := bgpDampDecay env.damp (tNow - bdi.tUpdated) bdi.penalty }) :=
      mild_putDamp hbdi rfl
    have hkeeps2 := hkeeps1.keeps (hkeeps1.well.mild hmild2)
    have hstat := hkeeps2.well.updateStatus (a := a) hri1 (hsame1.1.trans hb)
      (bgpDampDecay env.damp (tNow - bdi.tUpdated) bdi.penalty)
    rw [hsame1.2] at hstat
    refine hstat.bind ?_
    rintro ⟨status, s3⟩ ⟨h3, ri3, hri3, hb3⟩
    have hkeeps3 := hkeeps2.keeps h3
    refine .ite (fun _ => ?_) fun _ => ?_
    · obtain ⟨bdi3, hbdi3, -⟩ := h3.well.info hri3 hb3
      exact (h3.well.of_mild (mild_modifyDamp hbdi3 rfl)).bind fun s4 h4 => .some (hkeeps3.keeps h4)
    · exact .map ((h3.well.free hri3 hb3 false).mono fun s4 h4 => hkeeps3.keeps h4.1)

theorem Well.scan (hb : ri.dampInfo = some b) (tNow : Int) :
    Ends (bgpDampScan env s a tNow) fun r => s.Keeps env r.2 := by
  obtain ⟨bdi, hbdi, -⟩ := h.info hri hb
  refine .next hri (.next hb (.next hbdi (.ite (fun hd => ?_) fun _ => ?_)))
  · refine .ite (fun _ => ?_) fun _ => .some ⟨.refl s, h⟩
    refine (h.reuse hri hb hd).bind fun s1 h1 => ?_
    obtain ⟨h1, ri1, hri1, hb1⟩ := h1
    obtain ⟨bdi1, hbdi1, -⟩ := h1.well.info hri1 hb1
    exact (h1.well.of_mild (mild_modifyDamp hbdi1 rfl)).bind fun s2 h2 => .some (h1.keeps h2)
  · have hmild : s.Mild (s.putDamp b { bdi with
        penalty := bgpDampDecay env.damp (tNow - bdi.tUpdated) bdi.penalty }) := mild_putDamp hbdi rfl
    have h1 := h.mild hmild
    refine .ite (fun _ => ?_) fun _ => ?_
    · exact .map ((h1.well.free (a := a) hri hb true).mono fun s2 h2 => h1.keeps h2.1)
    · refine .map ((h1.well.of_mild (mild_modifyDamp (by rw [info_putDamp, if_pos rfl]) rfl)).mono fun s2 h2 => ?_)
      exact h1.keeps h2

/-! ## Paths are freed -/

theorem Well.forget (hb : ri.dampInfo = none) (hout : a ∉ s.info ri.rn) :
    ({ s with path := Function.update s.path a none } : Rib α).Well env := by
  have hpath : ∀ {c rc}, Function.update s.path a none c = some rc → s.path c = some rc :=
    fun hrc => (update_none_eq_some.1 hrc).2
  obtain ⟨l, hl⟩ := h.lists
  refine ⟨h.sound.free hri hout, l, ⟨hl.holds, fun b => ⟨hl.mem, ?_, fun hr hrc => hl.placed hr (hpath hrc)⟩,
    fun c => ⟨fun hrc => hl.has (hpath hrc), fun hrc => hl.damped (hpath hrc)⟩⟩⟩
  intro r hr
  obtain ⟨hlt, rc, hrc, hdamp, hrn⟩ := hl.owner hr
  refine ⟨hlt, rc, update_none_eq_some.2 ⟨?_, hrc⟩, hdamp, hrn⟩
  intro hra
  rw [hra, hri] at hrc
  cases hrc
  rw [hb] at hdamp
  cases hdamp

theorem Well.freePath (hout : a ∉ s.info ri.rn) : Ends (bgpInfoFree env s a) (·.Well env) := by
  refine .next hri ?_
  unfold bgpInfoExtraFree
  cases hb : ri.dampInfo with
  | none => exact .some (h.forget hri hb hout)
  | some b =>
    refine (h.free hri hb false).bind fun s1 h1 => ?_
    obtain ⟨h1, hinfo1, ri1, hri1, hb1⟩ := h1
    exact .some (h1.well.forget hri1 hb1 (by rwa [hinfo1, h1.rn hri hri1]))

end

end

/-! ## The reuse timer -/

/-- The records `pend` are those of a list that was let go, from `head` on, and in no list; the paths are still
marked. -/
structure Waits (env : RibEnv α) (pend : List Nat) (head : Option Nat) (s : Rib α) : Prop where
  sound : s.Sound
  lists : ∃ l, s.DampOk env.damp pend l ∧ ∀ b ∈ pend, ∀ k, b ∉ l k
  chain : s.dampLists.Forward head pend
  nodup : pend.Nodup
  record : ∀ b ∈ pend, (s.record b).isSome
  damped : ∀ b ∈ pend, ∀ r ri, s.record b = some r → s.path r.1 = some ri → ri.flags .damped = true

/-- No record of a list has decayed to half of the reuse limit. -/
def Above (env : RibEnv α) (tNow : Int) (pend : List Nat) (s : Rib α) : Prop :=
  ∀ b ∈ pend, ∀ bdi, s.damp.info b = some bdi →
    env.damp.reuseLimit < 2 * bgpDampDecay env.damp (tNow - bdi.tUpdated) bdi.penalty

variable {tNow : Int} {head : Option Nat}

theorem Above.of_core (h : s.Above env tNow pend)
    (hcore : ∀ c ∈ pend, (s'.damp.info c).map (·.core) = (s.damp.info c).map (·.core)) : s'.Above env tNow pend := by
  intro b hb bdi hbdi
  have := hcore b hb
  rw [hbdi, map_some, eq_comm, map_eq_some_iff] at this
  obtain ⟨bdi', hbdi', heq⟩ := this
  have hlt := h b hb bdi' hbdi'
  have hpen : bdi'.core.penalty = bdi.core.penalty := by rw [heq]
  have htime : bdi'.core.tUpdated = bdi.core.tUpdated := by rw [heq]
  show _ < 2 * bgpDampDecay env.damp (tNow - bdi.core.tUpdated) bdi.core.penalty
  rw [← hpen, ← htime]
  exact hlt

theorem ends_reusePath {bdi bdi' : DampInfo} (hs : s.Sound) (hri : s.path bdi.binfo = some ri)
    (hb : s.damp.info b = some bdi') :
    Ends (reusePath env s b bdi) fun s' => s.Flips bdi.binfo s' ∧ (∀ c, c ≠ b → s'.damp.info c = s.damp.info c) ∧
      ∃ ri', s'.path bdi.binfo = some ri' ∧ ri'.flags .damped = false := by
  refine (ends_bgpInfoPutFlags hri).bind fun s1 h1 => ?_
  have hflips1 := h1.flips hri (env.flagged_rn ri) (env.flagged_dampInfo ri)
  have hri1 := h1.path_self
  have hdamp1 : s1.damp = s.damp := by
    obtain ⟨_, rfl⟩ := h1
    rfl
  have hb1 : s1.damp.info b = some bdi' := by rw [hdamp1, hb]
  unfold modifyDamp
  refine .next (by rw [hb1, map_some]) ?_
  have hmild2 : s1.Mild (s1.putDamp b { bdi' with suppressTime := 0 }) := mild_putDamp hb1 rfl
  have hflips2 := hflips1.trans (hmild2.flips bdi.binfo)
  have hri2 : (s1.putDamp b { bdi' with suppressTime := 0 }).path bdi.binfo = some (env.flagged ri [.damped] false) :=
    hri1
  have hinfo2 : ∀ c, c ≠ b → (s1.putDamp b { bdi' with suppressTime := 0 }).damp.info c = s.damp.info c := by
    intro c hc
    rw [info_putDamp, if_neg hc, hdamp1]
  have hdmp : (env.flagged ri [.damped] false).flags .damped = false := by
    rw [env.flagged_flags ri (by decide), if_pos (by decide)]
  refine .ite (fun _ => ?_) fun _ => .some ⟨hflips2, hinfo2, _, hri2, hdmp⟩
  refine (quiet_bgpInfoPutFlags hri2 (by decide)).bind fun s3 h3 => ?_
  obtain ⟨ri3, hri3, -⟩ := h3.path hri2
  have hs3 := (hs.lasting hflips2.toLasting).lasting h3.toLasting
  refine (quiet_bgpAggregateIncrement hs3 hri3).mono fun s4 h4 => ?_
  have hquiet := h3.trans h4
  obtain ⟨ri4, hri4, -⟩ := hquiet.path hri2
  refine ⟨hflips2.trans (hquiet.mild.flips _), fun c hc => ?_, ri4, hri4, ?_⟩
  · rw [hquiet.damp, hinfo2 c hc]
  · rw [(hquiet.same id hri2 hri4).2, hdmp]

/-- A record that waits is listed again, after its path was marked as `ri1` says. -/
theorem Waits.listed {s2 : Rib α} {ri1 : BgpPath α} {i : Int}
    (h : s.Waits env (b :: pend) head) (hl : s.DampOk env.damp (b :: pend) l) (hnot : ∀ c ∈ b :: pend, ∀ k, c ∉ l k)
    (hri : s.path a = some ri) (hb : ri.dampInfo = some b)
    (hflips : s.Flips a s1) (hri1 : s1.path a = some ri1) (hlist : s1.Relisted (· = b) s2)
    (hnext : ∀ c, c ≠ b → s2.dampLists.next c = s1.dampLists.next c) (hr : s2.record b = some (a, ri.rn, i))
    (hrng : ri1.flags .damped → ∃ j < env.damp.reuseListSize, i = (j : Int)) (hholds : s2.dampLists.Holds
      (Function.update l (dampSlot i (ri1.flags .damped)) (b :: l (dampSlot i (ri1.flags .damped))))) :
    s2.Waits env pend (s.dampLists.next b) ∧ s.Lasting s2 := by
  obtain ⟨hbpend, hnd⟩ := nodup_cons.1 h.nodup
  have hne : ∀ c ∈ pend, c ≠ b := fun _ hc => ne_of_mem_of_not_mem hc hbpend
  have haside : s.Aside a b s2 := (hflips.aside b).trans (hlist.aside a)
  have hri2 : s2.path a = some ri1 := by rw [hlist.path, hri1]
  have hlt : b < s2.brk := by
    obtain ⟨r, hr, -⟩ := hl.has hri hb
    exact (hl.owner hr).1.trans_le haside.brk
  refine ⟨⟨h.sound.lasting haside.toLasting, ⟨_, hl.change hri (.inl hb) haside hri2 hholds Lists.mem_update_cons
    ?_ (.inl ⟨i, hr, hlt, (hflips.kept hri hri1).trans hb, fun _ => ⟨Lists.mem_update_cons_self, hrng⟩⟩), ?_⟩,
    ?_, hnd, ?_, ?_⟩, haside.toLasting⟩
  · intro c hc hcpend
    rw [mem_cons]
    rintro (rfl | hc')
    · exact hc rfl
    · exact hcpend hc'
  · intro c hc k
    rw [Lists.mem_update_cons (hne c hc)]
    exact hnot c (mem_cons_of_mem _ hc) k
  · refine h.chain.2.congr fun c hc => ?_
    rw [hnext c (hne c hc), hflips.lists]
  · intro c hc
    rw [haside.record (hne c hc)]
    exact h.record c (mem_cons_of_mem _ hc)
  · intro c hc r rc hrc hpath
    rw [haside.record (hne c hc)] at hrc
    obtain ⟨-, rc', hrc', hdamp, -⟩ := hl.owner hrc
    have hca : r.1 ≠ a := by
      intro hra
      rw [hra, hri] at hrc'
      cases hrc'
      rw [hb] at hdamp
      cases hdamp
      exact hbpend hc
    rw [(haside.same hca hrc' hpath).2]
    exact h.damped c (mem_cons_of_mem _ hc) r rc' hrc hrc'

/-- One turn of the reuse timer, for a record that is above half of the reuse limit. -/
theorem Waits.turn (h : s.Waits env (b :: pend) head) (habove : s.Above env tNow (b :: pend)) :
    Ends (reuseTurn env tNow s b) fun s' => (s'.Waits env pend (s.dampLists.next b) ∧ s.Lasting s') ∧
      s'.Above env tNow pend := by
  obtain ⟨l, hl, hnot⟩ := h.lists
  have hmem : b ∈ b :: pend := mem_cons_self ..
  obtain ⟨hbpend, -⟩ := nodup_cons.1 h.nodup
  have hne : ∀ c ∈ pend, c ≠ b := fun _ hc => ne_of_mem_of_not_mem hc hbpend
  obtain ⟨bdi, hbdi⟩ := exists_info (h.record b hmem)
  have hr := record_of_info hbdi
  obtain ⟨-, ri, hri, hb, hrn⟩ := hl.owner hr
  have hdmp := h.damped b hmem _ ri hr hri
  have hhalf := habove b hmem bdi hbdi
  have habove' : s.Above env tNow pend := fun c hc => habove c (mem_cons_of_mem _ hc)
  refine .next hbdi ?_
  generalize hpen : bgpDampDecay env.damp (tNow - bdi.tUpdated) bdi.penalty = penalty at hhalf ⊢
  have hmild1 : s.Mild (s.putDamp b { bdi with penalty, tUpdated := tNow }) := mild_putDamp hbdi rfl
  have hb1 : (s.putDamp b { bdi with penalty, tUpdated := tNow }).damp.info b =
      some { bdi with penalty, tUpdated := tNow } := by rw [info_putDamp, if_pos rfl]
  have hri1 : (s.putDamp b { bdi with penalty, tUpdated := tNow }).path bdi.binfo = some ri := hri
  have hs1 := h.sound.lasting hmild1.toLasting
  have hcore1 : ∀ c, c ≠ b → (s.putDamp b { bdi with penalty, tUpdated := tNow }).damp.info c = s.damp.info c := by
    intro c hc
    rw [info_putDamp, if_neg hc]
  refine .ite (fun _ => ?_) fun _ => ?_
  · refine (ends_reusePath hs1 hri1 hb1).bind fun s2 h2 => ?_
    obtain ⟨hflips, hinfo2, ri2, hri2, hdmp2⟩ := h2
    have hflips' := (hmild1.flips bdi.binfo).trans hflips
    refine .ite (fun hle => absurd hle (by omega)) fun _ => ?_
    have hmem2 : ∀ {c k}, c ∈ l k → (s2.record c).isSome := by
      intro c k hc
      rw [hflips'.record]
      exact hl.mem hc
    have hr2 : s2.record b = some (bdi.binfo, ri.rn, bdi.index) := by rw [hflips'.record, hr, hrn]
    refine (ends_link (l := l) (by rw [hflips'.lists]; exact hl.holds) hmem2 none (by rw [hr2]; rfl)
      (hnot b hmem)).mono fun s3 h3 => ?_
    obtain ⟨hlink, hholds3, hnext⟩ := h3
    refine ⟨h.listed hl hnot hri hb hflips' hri2 (hlink.relisted b) hnext (i := bdi.index) ?_ ?_ ?_,
      habove'.of_core fun c hc => ?_⟩
    · rw [hlink.record, hr2]
    · rw [hdmp2]
      rintro ⟨⟩
    · rw [hdmp2]
      exact hholds3
    · rw [hlink.core id, hinfo2 c (hne c hc), hcore1 c (hne c hc)]
  · have hr1 : (s.putDamp b { bdi with penalty, tUpdated := tNow }).record b = some (bdi.binfo, ri.rn, bdi.index) := by
      rw [hmild1.record, hr, hrn]
    refine (ends_bgpReuseListAdd (l := l) (by rw [hmild1.lists]; exact hl.holds) ?_ hr1 (hnot b hmem)).mono
      fun s2 h2 => ?_
    · intro c k hc
      rw [hmild1.record]
      exact hl.mem hc
    obtain ⟨hlist, hnext, i, hi, hholds2, hr2⟩ := h2
    refine ⟨h.listed hl hnot hri hb (hmild1.flips _) hri1 hlist hnext hr2 (fun _ => ⟨i, hi, rfl⟩) ?_,
      habove'.of_core fun c hc => ?_⟩
    · rw [hdmp]
      exact hholds2
    · rw [hlist.core (hne c hc), hcore1 c (hne c hc)]

/-- The loop of the reuse timer over the records that wait. -/
theorem Waits.loop : ∀ {pend : List Nat} {head : Option Nat} {s : Rib α} {turns : Nat},
    s.Waits env pend head → s.Above env tNow pend → pend.length ≤ turns →
    Ends (reuseLoop env tNow turns head s) (s.Keeps env)
  | [], head, s, turns, h, _, _ => by
    rw [show head = none from h.chain]
    unfold reuseLoop
    obtain ⟨l, hl, -⟩ := h.lists
    exact .some ⟨.refl s, h.sound, l, hl⟩
  | b :: pend, head, s, turns, h, habove, hturns => by
    rw [show head = some b from h.chain.1]
    cases turns with
    | zero => exact absurd hturns (Nat.not_succ_le_zero _)
    | succ turns =>
      obtain ⟨bdi, hbdi⟩ := exists_info (h.record b (mem_cons_self ..))
      refine .next hbdi ((h.turn habove).bind fun s1 h1 => ?_)
      obtain ⟨⟨hwaits, hlasting⟩, habove1⟩ := h1
      rw [(links_of_info hbdi).1] at hwaits
      exact (loop hwaits habove1 (Nat.le_of_succ_le_succ hturns)).mono fun _ => hlasting.keeps

/-- A record of a reuse list is that of a damped path and has the index of the list. -/
theorem DampOk.of_mem_reuseList {cfg : DampConfig} {b i : Nat} (h : s.DampOk cfg [] l) (hb : b ∈ l (some i)) :
    b < s.brk ∧ ∃ r ri, s.record b = some r ∧ s.path r.1 = some ri ∧ ri.flags .damped = true ∧ r.2.2 = i := by
  obtain ⟨r, hr⟩ := isSome_iff_exists.1 (h.mem hb)
  obtain ⟨hlt, ri, hri, -⟩ := h.owner hr
  obtain ⟨hplaced, hrng⟩ := h.placed hr hri not_mem_nil
  have hslot := h.holds.disjoint hb hplaced
  unfold dampSlot at hslot
  split at hslot
  · rename_i hd
    obtain ⟨j, -, hj⟩ := hrng hd
    have := some.inj hslot
    exact ⟨hlt, r, ri, hr, hri, hd, by omega⟩
  · cases hslot

/-- A reuse list is let go: its records are in no list then. -/
theorem DampOk.letGo {cfg : DampConfig} (h : s.DampOk cfg [] l) (i : Nat) :
    (s.putDampHead (some i) none).DampOk cfg (l (some i)) (Function.update l (some i) []) ∧
      ∀ b ∈ l (some i), ∀ k, b ∉ Function.update l (some i) [] k := by
  have hlists : (s.putDampHead (some i) none).dampLists = s.dampLists.clear (some i) :=
    Lists.ext (dampHead_putDampHead s (some i) none) rfl rfl
  have hkeep : ∀ {b k}, b ∈ Function.update l (some i) [] k → b ∈ l k := by
    intro b k hb
    rw [update_apply] at hb
    split at hb
    · cases hb
    · exact hb
  refine ⟨⟨?_, fun b => ⟨fun hb => h.mem (hkeep hb), h.owner, ?_⟩, fun c => ⟨h.has, h.damped⟩⟩, ?_⟩
  · rw [hlists]
    exact h.holds.clear _
  · intro r ri hr hri hb
    obtain ⟨hplaced, hrng⟩ := h.placed hr hri not_mem_nil
    refine ⟨?_, hrng⟩
    rw [update_of_ne]
    · exact hplaced
    · intro heq
      rw [heq] at hplaced
      exact hb hplaced
  · intro b hb k hk
    have hslot := h.holds.disjoint hb (hkeep hk)
    rw [← hslot, update_self] at hk
    cases hk

/-- The reuse timer, where no record of its list has decayed to half of the reuse limit. -/
theorem Well.reuseTimer {turns : Nat} (h : s.Well env) (hturns : s.brk ≤ turns)
    (habove : (RibCall.reuseTimer tNow turns : RibCall α).NoneHalved env s) :
    Ends (bgpReuseTimer env tNow turns s) (s.Keeps env) := by
  obtain ⟨l, hl⟩ := h.lists
  unfold bgpReuseTimer
  let pend := l (some s.damp.reuseOffset)
  let s1 : Rib α := { s.putDampHead (some s.damp.reuseOffset) none with
    damp := { (s.putDampHead (some s.damp.reuseOffset) none).damp with
      reuseOffset := (s.damp.reuseOffset + 1) % env.damp.reuseListSize } }
  have hlasting : s.Lasting s1 := { Lasting.refl s with }
  obtain ⟨hok, hnot⟩ := hl.letGo s.damp.reuseOffset
  have hok1 : s1.DampOk env.damp pend (Function.update l (some s.damp.reuseOffset) []) :=
    ⟨hok.holds, fun b => { hok.records b with }, fun a => { hok.paths a with }⟩
  have hwaits : s1.Waits env pend (s.damp.reuseList s.damp.reuseOffset) := by
    refine ⟨h.sound.lasting hlasting, ⟨_, hok1, hnot⟩, ?_, hl.holds.nodup _, fun b hb => hl.mem hb, ?_⟩
    · exact (hl.holds.forward (some s.damp.reuseOffset)).congr fun _ _ => rfl
    · intro b hb r ri hr hri
      obtain ⟨-, r', ri', hr', hri', hd, -⟩ := hl.of_mem_reuseList hb
      cases hr'.symm.trans hr
      cases hri'.symm.trans hri
      exact hd
  have habove1 : s1.Above env tNow pend := by
    intro b hb bdi hbdi
    obtain ⟨-, r, ri, hr, hri, hd, hidx⟩ := hl.of_mem_reuseList hb
    cases hr.symm.trans (record_of_info (s := s) hbdi)
    exact habove b bdi ri hbdi hri hd hidx
  have hlength : pend.length ≤ turns := by
    refine le_trans ?_ hturns
    have hsub : pend ⊆ List.range s.brk := fun b hb => mem_range.2 (hl.of_mem_reuseList hb).1
    have := ((hl.holds.nodup _).subperm hsub).length_le
    rwa [length_range] at this
  exact (hwaits.loop habove1 hlength).mono fun _ => hlasting.keeps

/-! ## Calls -/

theorem Well.configure {aggregate : RibNode → Option BgpAggregate} {aggregateNodes : List RibNode}
    (h : s.Well env) (hs : ({ s with aggregate, aggregateNodes } : Rib α).Sound) :
    ({ s with aggregate, aggregateNodes } : Rib α).Well env := by
  obtain ⟨l, hl⟩ := h.lists
  exact ⟨hs, l, hl.holds, fun b => { hl.records b with }, fun a => { hl.paths a with }⟩

/-- All is as it should be, and the path is there. -/
def WellAt (env : RibEnv α) (a : Nat) (s : Rib α) : Prop := s.Well env ∧ ∃ ri, s.path a = some ri

theorem WellAt.lasting (h : s.WellAt env a) (h1 : s.Keeps env s1) : s1.WellAt env a := by
  obtain ⟨-, ri, hri⟩ := h
  obtain ⟨ri1, hri1, -⟩ := h1.path hri
  exact ⟨h1.well, ri1, hri1⟩

theorem WellAt.of_quiet {x : Option (Rib α)} (h : s.WellAt env a) (hx : ∀ ri, s.path a = some ri → Ends x s.Quiet) :
    EndsUnless False x (WellAt env a) := by
  obtain ⟨ri, hri⟩ := h.2
  exact .of_ends ((hx ri hri).mono fun _ hq => h.lasting (h.1.quiet hq))

theorem kept_well (env : RibEnv α) : Kept env False (·.Well env) fun _ => WellAt env where
  sound h := h.sound
  enter h hri := ⟨h, _, hri⟩
  leave h := h.1
  loosen _ h := h
  there h hnone := by
    obtain ⟨-, ri, hri⟩ := h
    rw [hnone] at hri
    cases hri
  reworked h hr := (h.quiet hr.toQuiet).2
  configured h hs := h.configure hs
  increment h := h.of_quiet fun _ => quiet_bgpAggregateIncrement h.1.sound
  decrement h := h.of_quiet fun _ => quiet_bgpAggregateDecrement h.1.sound
  flags h _ _ hdmp := h.of_quiet fun _ hri => quiet_bgpInfoPutFlags hri hdmp
  plain h hmask _ := h.of_quiet fun _ hri => quiet_bgpInfoPutFlags hri fun hmem =>
    List.any_eq_false.1 hmask _ hmem rfl
  delete h := h.of_quiet fun _ => quiet_bgpInfoDelete
  restore h := h.of_quiet fun _ => quiet_bgpInfoRestore
  restoreOwn h _ _ := h.of_quiet fun _ => quiet_bgpInfoRestore
  put h hri hrn _ hfl hdamp := h.lasting (h.1.quiet (quiet_putPath hri hrn hdamp (by rw [hfl])))
  new h _ hdmp hdamp _ := ⟨(h.quiet (quiet_bgpInfoNew h.sound hdamp hdmp)).2, _, path_bgpInfoNew ..⟩
  add h := (h.of_quiet fun _ => quiet_bgpInfoAdd).imp id fun _ h => h.1
  reap h := (h.of_quiet fun _ => quiet_bgpInfoReap).imp id fun _ h => h.1
  withdraw tNow attrChange h := by
    obtain ⟨ri, hri⟩ := h.2
    exact .of_ends ((h.1.withdraw hri tNow attrChange).mono fun _ => h.lasting)
  update tNow h := by
    obtain ⟨ri, hri⟩ := h.2
    exact .of_ends ((h.1.update hri tNow).mono fun _ hr => ⟨h.lasting hr, fun _ => h.lasting hr⟩)
  scan tNow h hri hb := by
    obtain ⟨b, hb⟩ := isSome_iff_exists.1 hb
    exact .of_ends ((h.1.scan hri hb tNow).mono fun _ => h.lasting)
  clearDamp h hri hb := .of_ends ((h.1.free hri hb true).mono fun _ h => h.1.2)
  free h hleg := by
    obtain ⟨ri, hri, -, hout⟩ := hleg
    exact .of_ends (h.freePath hri hout)

end Rib

/-! ## Runs -/

/-- The reuse timer is given enough turns for all records. -/
def RibCall.EnoughTurns (s : Rib α) : RibCall α → Prop
  | .reuseTimer _ turns => s.brk ≤ turns
  | _ => True

section Equality
variable [DecidableEq α] {call : RibCall α}

theorem Rib.Well.exec (h : s.Well env) (hleg : call.Legal s) (hhalf : call.NoneHalved env s)
    (hturns : call.EnoughTurns s) : Ends (call.exec env s) fun s' => s'.Well env := by
  refine ((kept_well env).exec h hleg ?_).ends
  rintro tNow turns rfl
  exact .of_ends ((h.reuseTimer hturns hhalf).mono fun _ h => h.2)

omit [DecidableEq α] in
theorem well_start (env : RibEnv α) : ({} : Rib α).Well env := by
  refine ⟨sound_start, fun _ => [], ?_⟩
  refine ⟨⟨?_, fun _ => trivial, fun _ => nodup_nil, nofun⟩, fun _ => ⟨nofun, nofun, nofun⟩, fun _ => ⟨nofun, nofun⟩⟩
  rintro (_ | _) <;> rfl

omit [DecidableEq α] in
/-- A loop that has ended takes no more turns. -/
theorem reuseLoop_mono {tNow : Int} : ∀ {turns turns' : Nat} {head : Option Nat} {s : Rib α},
    reuseLoop env tNow turns head s = some s' → turns ≤ turns' → reuseLoop env tNow turns' head s = some s'
  | _, turns', none, s, h, _ => by
    unfold reuseLoop at h ⊢
    exact h
  | 0, _, some b, s, h, _ => by
    cases h
  | turns + 1, 0, some b, s, _, hle => absurd hle (Nat.not_succ_le_zero _)
  | turns + 1, turns' + 1, some b, s, h, hle => by
    obtain ⟨bdi, hbdi, h⟩ := bind_eq_some_iff.1 h
    obtain ⟨s1, hs1, h⟩ := bind_eq_some_iff.1 h
    refine bind_eq_some_iff.2 ⟨bdi, hbdi, bind_eq_some_iff.2 ⟨s1, hs1, ?_⟩⟩
    exact reuseLoop_mono h (Nat.le_of_succ_le_succ hle)

/-- A call that has returned leaves all as it should be, with however many turns. -/
theorem Rib.Well.step (h : s.Well env) (hleg : call.Legal s) (hhalf : call.NoneHalved env s)
    (hexec : call.exec env s = some s') : s'.Well env := by
  by_cases hturns : call.EnoughTurns s
  · exact (h.exec hleg hhalf hturns).gives s' hexec
  cases call with
  | reuseTimer tNow turns =>
    have hle : turns ≤ s.brk := Nat.le_of_not_le hturns
    have hmore := reuseLoop_mono hexec hle
    have hleg' : (RibCall.reuseTimer tNow s.brk : RibCall α).Legal s := trivial
    exact (h.exec hleg' hhalf (Nat.le_refl _)).gives s' hmore
  | _ => exact absurd trivial hturns

theorem RibRun.well (h : RibRun env (RibCall.NoneHalved env) s) : s.Well env := by
  induction h with
  | start => exact well_start env
  | step _ hleg hhalf hexec ih => exact ih.step hleg hhalf hexec

/-- The damping lists are right: the links are those of some lists without repetition or overlap, which hold the records
and nothing else, each in the list that the flag of its path tells. -/
def Rib.DampListed (s : Rib α) : Prop :=
  ∃ l, s.dampLists.Holds l ∧ (∀ b k, b ∈ l k → (s.damp.info b).isSome) ∧
    ∀ b bdi, s.damp.info b = some bdi →
      ∃ ri, s.path bdi.binfo = some ri ∧ ∀ k, b ∈ l k ↔ k = dampSlot bdi.index (ri.flags .damped)

omit [DecidableEq α] in
theorem Rib.Well.dampListed (h : s.Well env) : s.DampListed := by
  obtain ⟨l, hl⟩ := h.lists
  refine ⟨l, hl.holds, fun b k hb => ?_, fun b bdi hbdi => ?_⟩
  · exact record_isSome ▸ hl.mem hb
  · have hr := record_of_info hbdi
    obtain ⟨-, ri, hri, -⟩ := hl.owner hr
    have hplaced := hl.placed hr hri not_mem_nil
    refine ⟨ri, hri, fun k => ⟨fun hb => hl.holds.disjoint hb hplaced.1, ?_⟩⟩
    rintro rfl
    exact hplaced.1

/-- In every run in which the reuse timer meets no record that has decayed to half of the reuse limit, the lists are
right, and every call returns: no record is freed, or followed, that is not there. -/
theorem ribRun_dampListed (h : RibRun env (RibCall.NoneHalved env) s) :
    s.DampListed ∧ ∀ call : RibCall α, call.Legal s → call.NoneHalved env s → call.EnoughTurns s →
      ∃ s', call.exec env s = some s' := by
  refine ⟨h.well.dampListed, fun call hleg hhalf hturns => ?_⟩
  obtain ⟨s', hexec, -⟩ := h.well.exec hleg hhalf hturns
  exact ⟨s', hexec⟩

end Equality

end Damping

/-! ## `bgp dampening 2 750 1000 1` -/

/-- A path is withdrawn, another one changes its attributes, and the reuse timer goes round once. -/
def flapCalls : List (RibCall Bool) :=
  [.update (flapNode 0) 1 (some false) 0 .link [], .withdraw (flapNode 0) 1 0 [],
    .update (flapNode 1) 1 (some false) 1 .link [], .update (flapNode 1) 1 (some true) 2 .link [],
    .reuseTimer 10 5, .reuseTimer 20 5, .reuseTimer 30 5, .reuseTimer 40 5, .reuseTimer 50 5, .reuseTimer 60 5,
    .reuseTimer 70 5]

def flapState (n : Nat) : Rib Bool := ((flapCalls.take n).foldlM (RibCall.exec minuteEnv) {}).getD {}

theorem flapState_run : RibRun minuteEnv (RibCall.NoneHalved minuteEnv) (flapState 4) := by
  refine RibRun.calls (flapCalls.take 4) .start ?_ rfl
  intro call hcall s
  have hcall : call ∈ [_, _, _, _] := hcall
  simp only [mem_cons, not_mem_nil, or_false] at hcall
  rcases hcall with rfl | rfl | rfl | rfl <;> exact ⟨flapNode_ofMain _, trivial⟩

theorem ribRun_dampListed_flapped :
    (flapState 4).DampListed ∧ (flapState 4).damp.reuseList 6 = some 1 ∧ (flapState 4).damp.noReuseList = some 3 :=
  ⟨(ribRun_dampListed flapState_run).1, by decide, by decide⟩

/-- The first record has decayed when its list is looked at. It is freed from the list of the second one, which is in no
list then. -/
theorem dampListed_lost : RibRun minuteEnv (fun _ _ => True) (flapState 11) ∧ ¬ (flapState 11).DampListed := by
  refine ⟨RibRun.calls flapCalls .start ?_ rfl, ?_⟩
  · intro call hcall s
    unfold flapCalls at hcall
    simp only [mem_cons, not_mem_nil, or_false] at hcall
    rcases hcall with rfl | rfl | rfl | rfl | rfl | rfl | rfl | rfl | rfl | rfl | rfl
    all_goals first | exact ⟨flapNode_ofMain _, trivial⟩ | exact ⟨trivial, trivial⟩
  · rintro ⟨l, hholds, -, hrec⟩
    have hhead : (flapState 11).damp.noReuseList = none := by decide
    have hbinfo : ((flapState 11).damp.info 3).map (·.binfo) = some 2 := by decide
    have hdmp : ((flapState 11).path 2).map (·.flags .damped) = some false := by decide
    obtain ⟨bdi, hbdi, hbdi2⟩ := map_eq_some_iff.1 hbinfo
    obtain ⟨ri, hri, hmem⟩ := hrec 3 bdi hbdi
    rw [hbdi2] at hri
    rw [hri, map_some] at hdmp
    have h3 : 3 ∈ l none := (hmem none).2 (by rw [some.inj hdmp]; rfl)
    have hemp : (l none).head? = none := (hholds.head_eq none).symm.trans hhead
    rw [List.head?_eq_none_iff.1 hemp] at h3
    cases h3

end Tarpan.Bgpd
