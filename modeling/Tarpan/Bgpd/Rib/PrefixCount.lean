/-
The number of prefixes of each peer. After every call it is the number of the paths of the peer that carry the flag, and
these are its paths in the main tables that are not in holddown. In between, a path that was restored is valid before it
is counted again.
-/
import Mathlib.Data.Set.Card
import Tarpan.Bgpd.Rib.Calls

namespace Tarpan.Bgpd

open Base Lib Option Bool BgpPath

/-- Two sets that differ at one place. -/
theorem ncard_change {α : Type} {A B : Set α} {a : α} {v v' : Bool} (hA : A.Finite) (h : ∀ b, b ≠ a → (b ∈ B ↔ b ∈ A))
    (hv : a ∈ A ↔ v = true) (hv' : a ∈ B ↔ v' = true) :
    B.ncard + (if v then 1 else 0) = A.ncard + (if v' then 1 else 0) := by
  have hmem : ∀ {C : Set α} {w : Bool}, C.Finite → (a ∈ C ↔ w = true) →
      (C \ {a}).ncard + (if w then 1 else 0) = C.ncard := by
    intro C w hC hw
    split_ifs with hin
    · exact Set.ncard_sdiff_singleton_add_one (hw.2 hin) hC
    · rw [Set.sdiff_singleton_eq_self fun ha => hin (hw.1 ha), Nat.add_zero]
  have hrest : B \ {a} = A \ {a} := by
    ext b
    exact and_congr_left (h b)
  have hB : B.Finite := by
    refine (hA.insert a).subset fun b hb => ?_
    by_cases hba : b = a
    · exact .inl hba
    · exact .inr ((h b hba).1 hb)
  have h1 := hmem hA hv
  have h2 := hmem hB hv'
  rw [hrest] at h2
  omega

section PrefixCount
variable {α : Type} {env : RibEnv α} {s s' s'' : Rib α} {a b : Nat} {rn : RibNode} {ri ri' : BgpPath α}
  {x : Option Nat} {mask : List PathFlag} {v : Bool}

/-- A path of the peer and the address family that carries `BGP_INFO_COUNTED`. -/
def BgpPath.tallies (ri : BgpPath α) (q : Nat) (afi : Afi) (safi : Safi) : Bool :=
  ri.peer = q ∧ ri.rn.afi = afi ∧ ri.rn.safi = safi ∧ ri.flags .counted

theorem BgpPath.tallies_self (ri : BgpPath α) : ri.tallies ri.peer ri.rn.afi ri.rn.safi = ri.flags .counted := by
  unfold tallies
  cases ri.flags .counted <;> simp

theorem BgpPath.tallies_other (ri : BgpPath α) {q : Nat} {afi : Afi} {safi : Safi}
    (h : ¬ (q = ri.peer ∧ afi = ri.rn.afi ∧ safi = ri.rn.safi)) : ri.tallies q afi safi = false := by
  refine decide_eq_false fun htal => h ?_
  exact ⟨htal.1.symm, htal.2.1.symm, htal.2.2.1.symm⟩

namespace Rib

/-- The paths of a peer that carry `BGP_INFO_COUNTED`. -/
def countedPaths (s : Rib α) (q : Nat) (afi : Afi) (safi : Safi) : Set Nat :=
  { a | ∃ ri, s.path a = some ri ∧ ri.peer = q ∧ ri.rn.afi = afi ∧ ri.rn.safi = safi ∧ ri.flags .counted = true }

theorem mem_countedPaths {q : Nat} {afi : Afi} {safi : Safi} (hri : s.path a = some ri) :
    a ∈ s.countedPaths q afi safi ↔ ri.tallies q afi safi = true := by
  simp [countedPaths, tallies, hri]

theorem Sound.finite_countedPaths (h : s.Sound) (q : Nat) (afi : Afi) (safi : Safi) :
    (s.countedPaths q afi safi).Finite :=
  (Set.finite_lt_nat s.brk).subset fun _ ⟨_, hri, _⟩ => h.fresh hri

/-- The numbers of prefixes are right, and so are the flags of all paths but the one that is left out. -/
structure Counted (env : RibEnv α) (x : Option Nat) (s : Rib α) : Prop where
  sound : s.Sound
  exact : ∀ q afi safi, s.pcount q afi safi = (s.countedPaths q afi safi).ncard
  main : ∀ {a ri}, s.path a = some ri → ri.flags .counted = true → env.counts ri
  settled : ∀ {a ri}, s.path a = some ri → x ≠ some a → env.counts ri → ri.flags .counted = !ri.holddown

/-- Only damping records are changed, and memory is taken for them. -/
def OnlyDamp (s s' : Rib α) : Prop := ∃ damp brk, s.brk ≤ brk ∧ s' = { s with damp, brk }

theorem OnlyDamp.trans (h : s.OnlyDamp s') (h' : s'.OnlyDamp s'') : s.OnlyDamp s'' := by
  obtain ⟨_, _, hle, rfl⟩ := h
  obtain ⟨damp, brk, hle', rfl⟩ := h'
  exact ⟨damp, brk, hle.trans hle', rfl⟩

theorem OnlyDamp.path (h : s.OnlyDamp s') : s'.path = s.path := by
  obtain ⟨_, _, -, rfl⟩ := h
  rfl

section
variable (s : Rib α)

theorem onlyDamp_self (damp : DampLists) : s.OnlyDamp { s with damp } := ⟨damp, s.brk, le_rfl, rfl⟩
theorem onlyDamp_putDamp (b : Nat) (bdi : DampInfo) : s.OnlyDamp (s.putDamp b bdi) := s.onlyDamp_self _

theorem onlyDamp_modifyDamp (b : Nat) (f : DampInfo → DampInfo) : Gives (s.modifyDamp b f) s.OnlyDamp :=
  .map fun bdi _ => s.onlyDamp_putDamp b (f bdi)

theorem onlyDamp_putDampHead (slot head : Option Nat) : s.OnlyDamp (s.putDampHead slot head) := by
  cases slot <;> exact s.onlyDamp_self _

theorem onlyDamp_putPrev (b prev : Option Nat) : Gives (s.putPrev b prev) s.OnlyDamp := by
  cases b with
  | none => exact .some (s.onlyDamp_self s.damp)
  | some b => exact s.onlyDamp_modifyDamp b _

theorem onlyDamp_link (slot : Option Nat) (b : Nat) : Gives (s.bgpInfoLink slot b) s.OnlyDamp := by
  refine Gives.bind (s.onlyDamp_modifyDamp b _) fun s1 h1 => (s1.onlyDamp_putPrev _ _).bind fun s2 h2 => ?_
  exact .some ((h1.trans h2).trans (s2.onlyDamp_putDampHead slot _))

theorem onlyDamp_unlink (slot : Option Nat) (b : Nat) : Gives (s.bgpInfoUnlink slot b) s.OnlyDamp := by
  refine .get fun bdi _ => (s.onlyDamp_putPrev _ _).bind fun s1 h1 => .get fun bdi' _ => ?_
  split
  · exact Gives.mono (s1.onlyDamp_modifyDamp _ _) fun _ h => h1.trans h
  · exact .some (h1.trans (s1.onlyDamp_putDampHead _ _))

theorem onlyDamp_bgpReuseListAdd (env : RibEnv α) (b : Nat) : Gives (bgpReuseListAdd env s b) s.OnlyDamp :=
  .get fun _ _ => (onlyDamp_link _ _ b).mono fun _ h => (s.onlyDamp_putDamp b _).trans h

theorem onlyDamp_bgpReuseListDelete (b : Nat) : Gives (bgpReuseListDelete s b) s.OnlyDamp :=
  .get fun _ _ => .ite (fun _ => .none) fun _ => s.onlyDamp_unlink _ b

theorem onlyDamp_dampUnlink (b : Nat) (damped : Bool) : Gives (dampUnlink s b damped) s.OnlyDamp :=
  .ite (fun _ => s.onlyDamp_bgpReuseListDelete b) fun _ => s.onlyDamp_unlink none b

end

/-- Paths that were deleted stay so, in the tables as they are. -/
def KeepsRemoved (s s' : Rib α) : Prop := s'.info = s.info ∧ ∀ {a ri}, s.path a = some ri → ri.flags .removed = true →
  ∃ ri', s'.path a = some ri' ∧ ri'.rn = ri.rn ∧ ri'.flags .removed = true

theorem KeepsRemoved.refl (s : Rib α) : s.KeepsRemoved s := ⟨rfl, fun hri hr => ⟨_, hri, rfl, hr⟩⟩

theorem KeepsRemoved.trans (h : s.KeepsRemoved s') (h' : s'.KeepsRemoved s'') : s.KeepsRemoved s'' := by
  refine ⟨h'.1.trans h.1, fun hri hr => ?_⟩
  obtain ⟨ri1, hri1, hrn1, hr1⟩ := h.2 hri hr
  obtain ⟨ri2, hri2, hrn2, hr2⟩ := h'.2 hri1 hr1
  exact ⟨ri2, hri2, hrn2.trans hrn1, hr2⟩

theorem OnlyDamp.keepsRemoved (h : s.OnlyDamp s') : s.KeepsRemoved s' := by
  obtain ⟨_, _, -, rfl⟩ := h
  exact ⟨rfl, fun hri hr => ⟨_, hri, rfl, hr⟩⟩

theorem Puts.keepsRemoved (h : s.Puts a ri' s') (hri : s.path a = some ri) (hrn : ri'.rn = ri.rn)
    (hr : ri.flags .removed = true → ri'.flags .removed = true) : s.KeepsRemoved s' := by
  refine ⟨h.info, ?_⟩
  intro c rc hrc hremoved
  rw [h.path]
  split_ifs with hca
  · rw [hca, hri] at hrc
    cases hrc
    exact ⟨ri', rfl, hrn, hr hremoved⟩
  · exact ⟨rc, hrc, rfl, hremoved⟩

theorem keepsRemoved_bgpDampInfoFree (s : Rib α) (b : Nat) (withdraw : Bool) :
    Gives (bgpDampInfoFree env s b withdraw) s.KeepsRemoved := by
  refine .get fun bdi _ => .get fun ri hri => .get fun _ _ => ?_
  refine (ends_modifyPath hri).gives.bind fun s1 hs1 => ?_
  have hputs1 : s.Puts bdi.binfo { ri with extra := some { ri.getExtra with dampInfo := none } } s1 := ⟨s.pcount, hs1⟩
  have h1 : s.KeepsRemoved s1 := hputs1.keepsRemoved hri rfl id
  refine (s1.onlyDamp_dampUnlink b _).bind fun s2 h2 => ?_
  have hri2 : s2.path bdi.binfo = some { ri with extra := some { ri.getExtra with dampInfo := none } } := by
    rw [h2.path]
    exact hputs1.path_self
  refine (ends_bgpInfoPutFlags hri2).gives.bind fun s3 h3 => ?_
  have hfl : s2.KeepsRemoved s3 := h3.keepsRemoved hri2 (env.flagged_rn _) fun hr => by
    rw [env.flagged_flags _ (by decide), if_neg (by decide), hr]
  have hdel : Gives (deleteWithdrawn env s3 bdi withdraw) s3.KeepsRemoved := by
    refine .ite (fun _ => ?_) fun _ => .some (.refl s3)
    refine (ends_bgpInfoDelete h3.path_self).gives.mono fun s4 h4 => ?_
    refine h4.keepsRemoved h3.path_self (env.flagged_rn _) fun _ => ?_
    show (env.flagged _ [.removed] true).flags .removed = true
    rw [env.flagged_flags _ (by decide)]
    rfl
  refine hdel.bind fun s4 h4 => .some ?_
  exact (((h1.trans h2.keepsRemoved).trans hfl).trans h4).trans (s4.onlyDamp_self _).keepsRemoved

namespace Counted

theorem weaken (h : s.Counted env none) (x : Option Nat) : s.Counted env x :=
  { h with settled := fun hri _ => h.settled hri nofun }

/-! ## Changes that settle no path -/

section
variable (h : s.Counted env x)
include h

theorem put (pcount : Nat → Afi → Safi → Int) (hri : s.path a = some ri) (hrn : ri'.rn = ri.rn)
    (hmain : ri'.flags .counted = true → env.counts ri') {y : Option Nat} (hxy : ∀ c, c ≠ a → y ≠ some c → x ≠ some c)
    (hstl : y ≠ some a → env.counts ri' → ri'.flags .counted = !ri'.holddown)
    (hpcount : ∀ q afi safi, pcount q afi safi + (if ri.tallies q afi safi then 1 else 0) =
      s.pcount q afi safi + (if ri'.tallies q afi safi then 1 else 0)) :
    ({ s.putPath a ri' with pcount } : Rib α).Counted env y := by
  have hpath := s.path_putPath a ri'
  refine ⟨h.sound.lasting (Lasting.of_path hri hrn pcount), ?_, ?_, ?_⟩
  · intro q afi safi
    have hother : ∀ c, c ≠ a → (c ∈ ({ s.putPath a ri' with pcount } : Rib α).countedPaths q afi safi ↔
        c ∈ s.countedPaths q afi safi) := by
      intro c hc
      show (∃ rc, (s.putPath a ri').path c = some rc ∧ _) ↔ _
      rw [hpath, if_neg hc]
      rfl
    have hchg := ncard_change (h.sound.finite_countedPaths q afi safi) hother (mem_countedPaths hri)
      (mem_countedPaths (s.path_putPath_self a ri'))
    have hchg := congrArg (Nat.cast : Nat → Int) hchg
    push_cast at hchg
    refine add_right_cancel ((hpcount q afi safi).trans ?_)
    rw [h.exact]
    exact hchg.symm
  · intro c rc hrc hc
    rw [hpath] at hrc
    split at hrc
    · cases hrc
      exact hmain hc
    · exact h.main hrc hc
  · intro c rc hrc hc hcnts
    rw [hpath] at hrc
    split_ifs at hrc with hca
    · cases hrc
      subst hca
      exact hstl hc hcnts
    · exact h.settled hrc (hxy c hca hc) hcnts

theorem putPath (hri : s.path a = some ri) (hrn : ri'.rn = ri.rn)
    (hpeer : ri'.peer = ri.peer) (hcnt : ri'.flags .counted = ri.flags .counted)
    (hhd : x ≠ some a → ri'.holddown = ri.holddown) : (s.putPath a ri').Counted env x := by
  have hcnts : env.counts ri' ↔ env.counts ri := by
    unfold RibEnv.counts
    rw [hrn, hpeer]
  refine h.put s.pcount hri hrn (fun hc => hcnts.2 (h.main hri (hcnt.symm.trans hc)))
    (fun _ _ hc => hc) (fun hx hc => ?_) fun q afi safi => ?_
  · rw [hcnt, hhd hx]
    exact h.settled hri hx (hcnts.1 hc)
  · unfold tallies
    rw [hrn, hpeer, hcnt]

theorem any (hx : x = none ∨ x = some a) : s.Counted env (some a) := by
  rcases hx with rfl | rfl
  · exact h.weaken _
  · exact h

theorem plain (hmask : mask.any PathFlag.useability = false) (hcnt : .counted ∉ mask) :
    Gives (bgpInfoPutFlags env s a mask v) (Counted env x) := by
  refine .get fun s1 hs1 => ?_
  obtain ⟨ri, hri, rfl⟩ := map_eq_some_iff.1 hs1
  rw [if_neg (by rw [hmask]; decide)]
  have hsame : ∀ f : PathFlag, f.useability = true → (ri.setFlags mask v).flags f = ri.flags f := by
    intro f hf
    refine if_neg fun hmem => ?_
    rw [List.any_eq_false] at hmask
    exact hmask f hmem hf
  have hflag : (ri.setFlags mask v).flags .counted = ri.flags .counted := if_neg hcnt
  refine .some (h.putPath hri rfl rfl hflag fun _ => ?_)
  unfold holddown
  rw [hsame .valid rfl, hsame .history rfl, hsame .damped rfl, hsame .removed rfl]

/-- No path of a peer is changed, and new paths are not counted. -/
theorem reworked (hr : s.Reworked env s') : s'.Counted env x := by
  have hpath : ∀ {c rc}, s'.path c = some rc → (∃ ro, s.path c = some ro ∧ ro.Touched env rc) ∨
      rc.peer = env.peerSelf ∧ rc.flags .counted = false := by
    intro c rc hrc
    cases hro : s.path c with
    | none =>
      obtain ⟨hself, hfl⟩ := hr.made hrc hro
      exact .inr ⟨hself, hfl (by decide) (by decide) (by decide)⟩
    | some ro => exact .inl ⟨ro, rfl, hr.touched hro hrc⟩
  have hflag : ∀ {ro rc : BgpPath α}, ro.Touched env rc → rc.flags .counted = ro.flags .counted :=
    fun htouched => htouched.flags (by decide) (.inr (by decide))
  have hcnts : ∀ {ro rc : BgpPath α}, ro.Touched env rc → (env.counts rc ↔ env.counts ro) := by
    intro ro rc htouched
    unfold RibEnv.counts
    rw [htouched.rn, htouched.peer]
  refine ⟨h.sound.lasting hr.toLasting, ?_, ?_, ?_⟩
  · intro q afi safi
    have hset : s'.countedPaths q afi safi = s.countedPaths q afi safi := by
      ext c
      constructor
      · rintro ⟨rc, hrc, htal⟩
        rcases hpath hrc with ⟨ro, hro, htouched⟩ | ⟨-, hfalse⟩
        · rw [htouched.peer, htouched.rn, hflag htouched] at htal
          exact ⟨ro, hro, htal⟩
        · cases hfalse.symm.trans htal.2.2.2
      · rintro ⟨ro, hro, htal⟩
        obtain ⟨rc, hrc, -⟩ := hr.path hro
        have htouched := hr.touched hro hrc
        rw [← htouched.peer, ← htouched.rn, ← hflag htouched] at htal
        exact ⟨rc, hrc, htal⟩
    rw [hr.pcount, h.exact, hset]
  · intro c rc hrc hc
    rcases hpath hrc with ⟨ro, hro, htouched⟩ | ⟨-, hfalse⟩
    · exact (hcnts htouched).2 (h.main hro ((hflag htouched).symm.trans hc))
    · rw [hc] at hfalse
      cases hfalse
  · intro c rc hrc hx hc
    rcases hpath hrc with ⟨ro, hro, htouched⟩ | ⟨hself, -⟩
    · have hnot : ro.peer ≠ env.peerSelf := fun hself => hc.2 (htouched.peer.trans hself)
      have hhd : rc.holddown = ro.holddown := by
        unfold holddown
        rw [htouched.flags (by decide) (.inl hnot), htouched.flags (by decide) (.inl hnot),
          htouched.flags (by decide) (.inl hnot), htouched.flags (by decide) (.inl hnot)]
      rw [hflag htouched, hhd]
      exact h.settled hro hx ((hcnts htouched).1 hc)
    · exact absurd hself hc.2

theorem increment (a : Nat) : Gives (bgpAggregateIncrement env s a) (Counted env x) := by
  cases hri : s.path a with
  | none =>
    unfold bgpAggregateIncrement
    rw [hri]
    exact .none
  | some ri => exact (reworked_bgpAggregateIncrement h.sound hri).gives.mono fun _ => h.reworked

theorem decrement (a : Nat) : Gives (bgpAggregateDecrement env s a) (Counted env x) := by
  cases hri : s.path a with
  | none =>
    unfold bgpAggregateDecrement
    rw [hri]
    exact .none
  | some ri => exact (reworked_bgpAggregateDecrement h.sound hri).gives.mono fun _ => h.reworked

theorem onlyDamp (hd : s.OnlyDamp s') : s'.Counted env x := by
  obtain ⟨damp, brk, hle, rfl⟩ := hd
  exact { h with sound := { h.sound with fresh := fun hri => (h.sound.fresh hri).trans_le hle } }

theorem list {y : Option (Rib α)} (hy : Gives y s.OnlyDamp) : Gives y (Counted env x) := hy.mono fun _ => h.onlyDamp

theorem modifyDamp (b : Nat) (f : DampInfo → DampInfo) :
    Gives (s.modifyDamp b f) (Counted env x) := h.list (s.onlyDamp_modifyDamp b f)

theorem putDampInfo (a : Nat) (b : Option Nat) : Gives (s.putDampInfo a b) (Counted env x) := by
  refine .map fun ri hri => ?_
  exact h.putPath hri rfl rfl rfl fun _ => rfl

theorem flap (a : Nat) (ri : BgpPath α) (tNow : Int) (attrChange : Bool) :
    Gives (dampFlap env s a ri tNow attrChange) fun r => r.2.2.Counted env x := by
  unfold dampFlap
  split
  · refine ((h.onlyDamp ⟨_, s.brk + 1, Nat.le_succ _, rfl⟩).putDampInfo a (some s.brk)).bind fun s1 h1 => ?_
    exact (h1.list (s1.onlyDamp_link none s.brk)).bind fun s2 h2 => .some h2
  · exact .get fun bdi _ => .some (h.onlyDamp (s.onlyDamp_putDamp _ _))

theorem moved {nodes : List RibNode} {info : RibNode → List Nat}
    (hs : ({ s with nodes, info } : Rib α).Sound) : ({ s with nodes, info } : Rib α).Counted env x :=
  { h with sound := hs }

theorem add (a : Nat) : Gives (s.bgpInfoAdd a) (Counted env x) := by
  intro s' hs'
  obtain ⟨ri, hri, heq⟩ := bind_eq_some_iff.1 hs'
  have hsnd := h.sound.lasting ((quiet_bgpInfoAdd hri).gives s' (by unfold bgpInfoAdd; exact hs')).toLasting
  cases heq
  exact h.moved hsnd

theorem reap (a : Nat) : Gives (s.bgpInfoReap a) (Counted env x) := by
  intro s' hs'
  obtain ⟨ri, hri, heq⟩ := bind_eq_some_iff.1 hs'
  have hsnd := h.sound.lasting ((quiet_bgpInfoReap hri).gives s' (by unfold bgpInfoReap; exact hs')).toLasting
  cases heq
  exact h.moved hsnd

end

/-! ## The path at work is not settled -/

section
variable (h : s.Counted env (some a))
include h

/-- A path that is not to be counted needs no care. -/
theorem settle (hri : s.path a = some ri)
    (hstl : env.counts ri → ri.flags .counted = !ri.holddown) : s.Counted env none := by
  refine { h with settled := ?_ }
  intro c rc hrc _ hcnts
  by_cases hca : a = c
  · rw [← hca, hri] at hrc
    cases hrc
    exact hstl hcnts
  · exact h.settled hrc (fun heq => hca (some.inj heq)) hcnts

/-- `bgp_pcount_adjust` puts the flag of the path right. -/
theorem adjust : Gives (bgpPcountAdjust env s a) (Counted env none) := by
  refine .get fun ri hri => ?_
  have hput : ∀ v, env.counts ri → v = !ri.holddown → ∀ n,
      n + (if ri.flags .counted then 1 else 0) = s.pcount ri.peer ri.rn.afi ri.rn.safi + (if v then 1 else 0) →
      ((s.putPath a (ri.setFlags [.counted] v)).setPcount ri.peer ri.rn.afi ri.rn.safi n).Counted env none := by
    intro v hcnts hv n hn
    have hrn : (ri.setFlags [.counted] v).rn = ri.rn := rfl
    refine h.put _ hri hrn (fun _ => hcnts) (fun c hca _ => fun heq => hca (some.inj heq).symm)
      (fun _ _ => hv) fun q afi safi => ?_
    show (if _ then n else s.pcount q afi safi) + _ = _
    by_cases hq : q = ri.peer ∧ afi = ri.rn.afi ∧ safi = ri.rn.safi
    · obtain ⟨rfl, rfl, rfl⟩ := hq
      rw [if_pos ⟨rfl, rfl, rfl⟩, ri.tallies_self, hn]
      congr 2
      exact congrArg (· = true) (ri.setFlags [.counted] v).tallies_self.symm
    · rw [if_neg hq, ri.tallies_other hq, (ri.setFlags [.counted] v).tallies_other hq]
  refine .ite (fun hnot => ?_) fun hcnts => .ite (fun hdown => ?_) fun hdown => .ite (fun hup => ?_) fun hup => ?_
  · exact .some (h.settle hri fun hcnts => absurd hnot (by unfold RibEnv.counts at hcnts; tauto))
  · refine .some (hput false ?_ (by rw [hdown.1]; rfl) _ ?_)
    · exact h.main hri hdown.2
    · rw [hdown.2]
      show s.pcount _ _ _ - 1 + 1 = s.pcount _ _ _ + 0
      rw [Int.sub_add_cancel, Int.add_zero]
  · have hcnt := eq_false_iff.2 hup.2
    refine .some (hput true ?_ (by rw [eq_false_iff.2 hup.1]; rfl) _ ?_)
    · tauto
    · rw [hcnt]
      exact Int.add_zero _
  · refine .some (h.settle hri fun _ => ?_)
    cases hc : ri.flags .counted <;> cases hh : ri.holddown <;> simp_all

theorem flags (hmask : mask.any PathFlag.useability = true)
    (hcnt : .counted ∉ mask) : Gives (bgpInfoPutFlags env s a mask v) (Counted env none) := by
  refine .get fun s1 hs1 => ?_
  obtain ⟨ri, hri, rfl⟩ := map_eq_some_iff.1 hs1
  rw [if_pos hmask]
  have h1 : (s.putPath a (ri.setFlags mask v)).Counted env (some a) :=
    h.putPath hri rfl rfl (if_neg hcnt) fun hne => absurd rfl hne
  exact h1.adjust

theorem delete : Gives (s.bgpInfoDelete env a) (Counted env none) := by
  unfold bgpInfoDelete bgpInfoSetFlag
  cases hri : s.path a with
  | none =>
    unfold bgpInfoPutFlags modifyPath
    rw [hri]
    exact .none
  | some ri =>
    refine ((h.flags rfl (by decide)).and (ends_bgpInfoPutFlags hri).gives).bind fun s1 h1 => ?_
    obtain ⟨hcnt, hputs⟩ := h1
    refine (ends_modifyPath hputs.path_self).gives.mono ?_
    rintro _ rfl
    refine hcnt.putPath hputs.path_self rfl rfl rfl fun _ => ?_
    -- the path is in holddown already
    have hremoved : (env.flagged ri [.removed] true).flags .removed = true := by
      rw [env.flagged_flags ri (by decide)]
      rfl
    have hrem' : ((env.flagged ri [.removed] true).setFlags [.valid] false).flags .removed = true := hremoved
    unfold holddown
    rw [hremoved, hrem', Bool.or_true, Bool.or_true, Bool.or_true, Bool.or_true]

/-- A path that is restored is valid before it is counted. -/
theorem restore : Gives (s.bgpInfoRestore env a) (Counted env (some a)) := by
  refine (h.flags rfl (by decide)).bind fun s1 h1 s2 hs2 => ?_
  obtain ⟨ri, hri, rfl⟩ := map_eq_some_iff.1 hs2
  exact (h1.weaken (some a)).putPath hri rfl rfl rfl fun hne => absurd rfl hne

theorem withdraw (tNow : Int) (attrChange : Bool) :
    Gives (bgpDampWithdraw env s a tNow attrChange) fun r => r.2.Counted env none := by
  refine .get fun ri _ => (h.flap a ri tNow attrChange).bind ?_
  rintro ⟨b, lastPenalty, s1⟩ h1
  refine .get fun bdi _ => .ite (fun _ => .none) fun _ => ?_
  refine ((h1.onlyDamp (s1.onlyDamp_putDamp b _)).flags rfl (by decide)).bind fun s2 h2 => ?_
  refine .ite (fun _ => .ite (fun _ => ?_) fun _ => .some h2) fun _ => .ite (fun _ => ?_) fun _ => .some h2
  · refine (h2.list (s2.onlyDamp_bgpReuseListDelete b)).bind fun s3 h3 => ?_
    exact (h3.list (s3.onlyDamp_bgpReuseListAdd env b)).bind fun s4 h4 => .some h4
  · refine ((h2.weaken (some a)).flags rfl (by decide)).bind fun s3 h3 => ?_
    refine (h3.modifyDamp b _).bind fun s4 h4 => ?_
    refine (h4.list (s4.onlyDamp_unlink none b)).bind fun s5 h5 => ?_
    exact (h5.list (s5.onlyDamp_bgpReuseListAdd env b)).bind fun s6 h6 => .some h6

end

/-! ## All paths are settled -/

section
variable (h : s.Counted env none)
include h

theorem free (b : Nat) (withdraw : Bool) : Gives (bgpDampInfoFree env s b withdraw) (Counted env none) := by
  refine .get fun bdi _ => .get fun ri _ => .get fun _ _ => (h.putDampInfo bdi.binfo none).bind fun s1 h1 => ?_
  refine (h1.list (s1.onlyDamp_dampUnlink b _)).bind fun s2 h2 => ?_
  refine ((h2.weaken (some bdi.binfo)).flags rfl (by decide)).bind fun s3 h3 => ?_
  have hdel : Gives (deleteWithdrawn env s3 bdi withdraw) (Counted env none) :=
    .ite (fun _ => (h3.weaken _).delete) fun _ => .some h3
  exact hdel.bind fun s4 h4 => .some (h4.onlyDamp (s4.onlyDamp_self _))

theorem reuse (a b : Nat) : Gives (dampReuse env s a b) (Counted env none) := by
  refine ((h.weaken (some a)).flags rfl (by decide)).bind fun s1 h1 => ?_
  refine (h1.list (s1.onlyDamp_bgpReuseListDelete b)).bind fun s2 h2 => ?_
  refine (h2.list (s2.onlyDamp_link none b)).bind fun s3 h3 => ?_
  exact h3.modifyDamp b _

theorem scan (a : Nat) (tNow : Int) : Gives (bgpDampScan env s a tNow) fun r => r.2.Counted env none := by
  refine .get fun ri _ => .get fun b _ => .get fun bdi _ => .ite (fun _ => .ite (fun _ => ?_) fun _ => .some h)
    fun _ => ?_
  · refine (h.reuse a b).bind fun s1 h1 => ?_
    exact (h1.modifyDamp b _).bind fun s2 h2 => .some h2
  · have h1 := h.onlyDamp (s.onlyDamp_putDamp b
      { bdi with penalty := bgpDampDecay env.damp (tNow - bdi.tUpdated) bdi.penalty })
    refine .ite (fun _ => .map (h1.free b true)) fun _ => .map ?_
    exact h1.modifyDamp b _

theorem turn (tNow : Int) (b : Nat) : Gives (reuseTurn env tNow s b) (Counted env none) := by
  refine .get fun bdi _ => ?_
  generalize bgpDampDecay env.damp (tNow - bdi.tUpdated) bdi.penalty = penalty
  have h1 := h.onlyDamp (s.onlyDamp_putDamp b { bdi with penalty, tUpdated := tNow })
  refine .ite (fun _ => ?_) fun _ => h1.list (onlyDamp_bgpReuseListAdd _ env b)
  have hreuse : Gives (reusePath env (s.putDamp b { bdi with penalty, tUpdated := tNow }) b bdi)
      (Counted env none) := by
    refine ((h1.weaken (some bdi.binfo)).flags rfl (by decide)).bind fun s2 h2 => ?_
    refine (h2.modifyDamp b _).bind fun s3 h3 => .ite (fun _ => ?_) fun _ => .some h3
    exact ((h3.weaken (some bdi.binfo)).flags rfl (by decide)).bind fun s4 h4 => h4.increment bdi.binfo
  refine hreuse.bind fun s2 h2 => .ite (fun _ => h2.free b true) fun _ => ?_
  exact h2.list (s2.onlyDamp_link none b)

omit h in
theorem loop {tNow : Int} : ∀ {turns : Nat} {head : Option Nat} {s : Rib α}, s.Counted env none →
    Gives (reuseLoop env tNow turns head s) (Counted env none)
  | 0, none, s, h => by
    exact .some h
  | turns + 1, none, s, h => by
    exact .some h
  | 0, some b, s, h => by
    exact .none
  | turns + 1, some b, s, h => by
    exact .get fun bdi _ => (h.turn tNow b).bind fun s1 h1 => h1.loop

theorem reuseTimer (tNow : Int) (turns : Nat) : Gives (bgpReuseTimer env tNow turns s) (Counted env none) := by
  exact (h.onlyDamp ((s.onlyDamp_putDampHead _ none).trans (onlyDamp_self _ _))).loop

theorem new (hcnt : ri.flags .counted = false)
    (hstl : env.counts ri → ri.holddown = true) : (s.bgpInfoNew ri).2.Counted env none := by
  refine ⟨h.sound.lasting (lasting_bgpInfoNew h.sound ri), ?_, ?_, ?_⟩
  · intro q afi safi
    have hset : (s.bgpInfoNew ri).2.countedPaths q afi safi = s.countedPaths q afi safi := by
      ext c
      constructor
      · rintro ⟨rc, hrc, htal⟩
        rcases h.sound.path_new.1 hrc with ⟨-, rfl⟩ | hrc
        · cases hcnt.symm.trans htal.2.2.2
        · exact ⟨rc, hrc, htal⟩
      · rintro ⟨rc, hrc, htal⟩
        exact ⟨rc, h.sound.path_new.2 (.inr hrc), htal⟩
    rw [hset]
    exact h.exact q afi safi
  · intro c rc hrc hc
    rcases h.sound.path_new.1 hrc with ⟨-, rfl⟩ | hrc
    · rw [hcnt] at hc
      cases hc
    · exact h.main hrc hc
  · intro c rc hrc hx hc
    rcases h.sound.path_new.1 hrc with ⟨-, rfl⟩ | hrc
    · rw [hcnt, hstl hc]
      rfl
    · exact h.settled hrc hx hc

/-- A path that is not counted at all is settled when it is restored. -/
theorem restoreOwn (hri : s.path a = some ri) (hown : ¬ env.counts ri) :
    Gives (s.bgpInfoRestore env a) (Counted env none) := by
  refine (Gives.and (h.weaken (some a)).restore (ends_bgpInfoRestore hri).gives).mono ?_
  rintro s1 ⟨h1, hputs⟩
  refine h1.settle hputs.path_self fun hcnts => absurd ?_ hown
  have hcnts : (env.flagged ri _ _).rn.InMain ∧ (env.flagged ri _ _).peer ≠ env.peerSelf := hcnts
  rwa [env.flagged_rn, env.flagged_peer] at hcnts

variable (hri : s.path a = some ri) (hremoved : ri.flags .removed = true) (hout : a ∉ s.info ri.rn)
include hri hremoved hout

theorem forget : ({ s with path := Function.update s.path a none } : Rib α).Counted env none := by
  have hpath : ∀ {c rc}, Function.update s.path a none c = some rc → s.path c = some rc :=
    fun hrc => (update_none_eq_some.1 hrc).2
  have hcnt : ri.flags .counted = false := by
    refine eq_false_iff.2 fun hc => ?_
    have := h.settled hri nofun (h.main hri hc)
    unfold holddown at this
    rw [hc, hremoved, Bool.or_true, Bool.or_true] at this
    cases this
  refine ⟨h.sound.free hri hout, ?_, fun hrc => h.main (hpath hrc), fun hrc => h.settled (hpath hrc)⟩
  intro q afi safi
  refine (h.exact q afi safi).trans (congrArg (fun A : Set Nat => (A.ncard : Int)) ?_)
  ext c
  constructor
  · rintro ⟨rc, hrc, htal⟩
    refine ⟨rc, update_none_eq_some.2 ⟨?_, hrc⟩, htal⟩
    rintro rfl
    cases hri.symm.trans hrc
    cases hcnt.symm.trans htal.2.2.2
  · rintro ⟨rc, hrc, htal⟩
    exact ⟨rc, hpath hrc, htal⟩

theorem freePath : Gives (bgpInfoFree env s a) (Counted env none) := by
  have hex : Gives (bgpInfoExtraFree env s ri) fun s' => s'.Counted env none ∧ s.KeepsRemoved s' := by
    unfold bgpInfoExtraFree
    split
    · exact (h.free _ false).and (keepsRemoved_bgpDampInfoFree s _ false)
    · exact .some ⟨h, .refl s⟩
  refine .get fun ri' hri' => ?_
  rw [hri] at hri'
  cases hri'
  refine hex.bind ?_
  rintro s1 ⟨h1, hinfo, hkeeps⟩
  obtain ⟨ri1, hri1, hrn, hrem1⟩ := hkeeps hri hremoved
  exact .some (h1.forget hri1 hrem1 (by rwa [hinfo, hrn]))

end

/-- Only a path with a record is suppressed, and then it is counted as it should be. -/
theorem update (h : s.Counted env x) (hx : x = none ∨ x = some a) (tNow : Int) :
    Gives (bgpDampUpdate env s a tNow) fun r => r.2.Counted env x ∧ (r.1 = .suppressed → r.2.Counted env none) := by
  refine .get fun ri _ => ?_
  split
  · exact .some ⟨h, nofun⟩
  rename_i b hb
  refine ((h.any hx).flags rfl (by decide)).bind fun s1 h1 => .get fun bdi _ => ?_
  generalize bgpDampDecay env.damp (tNow - bdi.tUpdated) bdi.penalty = penalty
  have h2 := h1.onlyDamp (s1.onlyDamp_putDamp b { bdi with lastrecord := .update, penalty })
  have hstat : Gives (dampUpdateStatus env (s1.putDamp b { bdi with lastrecord := .update, penalty }) a b
      (ri.flags .damped) penalty) fun r => r.2.Counted env none :=
    .ite (fun _ => .some h2) fun _ => .ite (fun _ => .map (h2.reuse a b)) fun _ => .some h2
  refine hstat.bind ?_
  rintro ⟨status, s3⟩ h3
  have hdone : ∀ {s'}, Counted env none s' → s'.Counted env x ∧ (status = .suppressed → s'.Counted env none) :=
    fun h' => ⟨h'.weaken x, fun _ => h'⟩
  refine .ite (fun _ => ?_) fun _ => .map ((h3.free b false).mono fun _ h' => hdone h')
  exact (h3.modifyDamp b _).bind fun s4 h4 => .some (hdone h4)

end Counted

/-- All numbers are right but for the path at work, which may be unsettled. -/
def CountedAt (env : RibEnv α) (settled : Bool) (a : Nat) : Rib α → Prop :=
  Counted env (if settled then none else some a)

theorem kept_counted (env : RibEnv α) : Kept env True (Counted env none) (CountedAt env) where
  sound h := h.sound
  enter h _ := h
  leave h := h
  loosen settled h := Counted.weaken h _
  there _ _ := trivial
  reworked h := h.reworked
  configured h hs := { h with sound := hs }
  increment h := .of_gives (Counted.increment h _)
  decrement h := .of_gives (Counted.decrement h _)
  flags h hmask hcnt _ := .of_gives (Counted.flags h hmask hcnt)
  plain h hmask hcnt := .of_gives (Counted.plain h hmask hcnt)
  delete h := .of_gives (Counted.delete h)
  restore h := .of_gives (Counted.restore h)
  restoreOwn h hri hown := .of_gives (Counted.restoreOwn h hri hown)
  put h hri hrn hpeer hfl _ := Counted.putPath h hri hrn hpeer (by rw [hfl]) fun _ => by
    unfold holddown
    rw [hfl]
  new h hcnt _ _ hstl := h.new hcnt hstl
  add h := .of_gives (Counted.add h _)
  reap h := .of_gives (Counted.reap h _)
  withdraw tNow attrChange h := .of_gives (Counted.withdraw h tNow attrChange)
  update tNow h := .of_gives (Counted.update h (by split <;> simp) tNow)
  scan tNow h _ _ := .of_gives (Counted.scan h _ tNow)
  clearDamp h _ _ := .of_gives (Counted.free h _ true)
  free h hleg := by
    obtain ⟨ri, hri, hremoved, hout⟩ := hleg
    exact .of_gives (h.freePath hri hremoved hout)

end Rib

/-! ## Runs -/

section Equality
variable [DecidableEq α]

theorem Rib.Counted.exec {call : RibCall α} (h : s.Counted env none) (hleg : call.Legal s) :
    Gives (call.exec env s) (Counted env none) := by
  refine ((kept_counted env).exec h hleg ?_).2
  rintro tNow turns rfl
  exact .of_gives (h.reuseTimer tNow turns)

omit [DecidableEq α] in
theorem counted_start (env : RibEnv α) : ({} : Rib α).Counted env none :=
  ⟨sound_start, fun _ _ _ => by simp [Rib.countedPaths], nofun, nofun⟩

theorem RibRun.counted {C : Rib α → RibCall α → Prop} (h : RibRun env C s) : s.Counted env none := by
  induction h with
  | start => exact counted_start env
  | step _ hleg _ hexec ih => exact ih.exec hleg _ hexec

/-- In every state of every run, the number of prefixes of a peer is the number of its paths that carry the flag. In the
tables of the router these are its paths that are not in holddown; the paths of the router itself have no such flag, nor
do those in the table of a client. The tables below that of a client, which only the VPN family has, are left out:
`bgp_afi_node_get` gives them the main type, so that their paths are counted a second time. -/
theorem ribRun_pcount (h : RibRun env (fun _ _ => True) s) :
    (∀ q afi safi, (s.countedPaths q afi safi).Finite ∧ s.pcount q afi safi = (s.countedPaths q afi safi).ncard) ∧
      (∀ a ri, s.path a = some ri → ri.rn.table = .main →
        (ri.flags .counted = true ↔ ri.peer ≠ env.peerSelf ∧ ri.holddown = false)) ∧
      ∀ a ri, s.path a = some ri → ri.rn.table ≠ .main → ri.rn.safi ≠ .mplsVpn → ri.flags .counted = false := by
  have hcnt := h.counted
  refine ⟨?_, ?_, ?_⟩
  · intro q afi safi
    exact ⟨hcnt.sound.finite_countedPaths q afi safi, hcnt.exact q afi safi⟩
  · intro a ri hri htab
    constructor
    · intro hc
      have hmain := hcnt.main hri hc
      have hstl := hcnt.settled hri nofun hmain
      rw [hc] at hstl
      exact ⟨hmain.2, (not_eq_true' _).mp hstl.symm⟩
    · rintro ⟨hpeer, hhd⟩
      rw [hcnt.settled hri nofun ⟨.inl htab, hpeer⟩, hhd]
      rfl
  · intro a ri hri htab hsafi
    refine eq_false_iff.2 fun hc => ?_
    rcases (hcnt.main hri hc).1 with hmain | hvpn
    · exact htab hmain
    · exact hsafi hvpn

end Equality

end PrefixCount

/-! ## A route server client -/

/-- The peer 1 announces two prefixes, the first one also to the client 2, withdraws the first one and announces it
again, which is suppressed then. -/
def clientCalls : List (RibCall Bool) :=
  [.update (flapNode 0) 1 (some false) 0 .link [(2, some false)], .update (flapNode 1) 1 (some false) 1 .link [],
    .withdraw (flapNode 0) 1 2 [2], .update (flapNode 0) 1 (some false) 3 .link [(2, some false)]]

def clientState (n : Nat) : Rib Bool := ((clientCalls.take n).foldlM (RibCall.exec minuteEnv) {}).getD {}

theorem legal_of_clientCalls {call : RibCall Bool} (h : call ∈ clientCalls) (s : Rib Bool) :
    call.Legal s ∧ True := by
  unfold clientCalls at h
  rw [List.mem_cons, List.mem_cons, List.mem_cons, List.mem_singleton] at h
  rcases h with rfl | rfl | rfl | rfl <;> exact ⟨flapNode_ofMain _, trivial⟩

theorem clientState_run (n : Nat) (h : (clientCalls.take n).foldlM (RibCall.exec minuteEnv) {} = some (clientState n)) :
    RibRun minuteEnv (fun _ _ => True) (clientState n) :=
  RibRun.calls _ .start (fun _ hcall => legal_of_clientCalls (List.mem_of_mem_take hcall)) h

theorem ribRun_pcount_client :
    ((clientState 2).pcount 1 .ip .unicast = ((clientState 2).countedPaths 1 .ip .unicast).ncard ∧
        (clientState 2).pcount 1 .ip .unicast = 2) ∧
      (clientState 4).pcount 1 .ip .unicast = ((clientState 4).countedPaths 1 .ip .unicast).ncard ∧
        (clientState 4).pcount 1 .ip .unicast = 1 :=
  ⟨⟨((ribRun_pcount (clientState_run 2 rfl)).1 1 .ip .unicast).2, by decide⟩,
    ((ribRun_pcount (clientState_run 4 rfl)).1 1 .ip .unicast).2, by decide⟩

/-- The path in the table of the client is in use and is not counted. -/
theorem ribRun_pcount_rsclient : RibRun minuteEnv (fun _ _ => True) (clientState 1) ∧
    ((clientState 1).path 1).any (fun ri => ri.peer = 1 ∧ ri.holddown = false ∧ ri.flags .counted = false) = true :=
  ⟨clientState_run 1 rfl, by decide⟩

end Tarpan.Bgpd
