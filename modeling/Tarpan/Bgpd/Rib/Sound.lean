/-
What no function on paths does: a path that is at a node stays in memory, the tables point to paths that are there, and
every aggregate that a walk meets is there. From this every function returns that does not itself look at the damping
lists, and leaves these lists and the records of the paths as they are.
-/
import Tarpan.Bgpd.Rib.Update

namespace Tarpan.Bgpd

open Base Lib List Function Option

section Sound
variable {α : Type} {env : RibEnv α} {s s' s'' : Rib α} {a b : Nat} {k : RibNode} {ri ri' rb : BgpPath α} {f : PathFlag}

namespace Rib

/-- The pointers of the tables lead somewhere. -/
structure Sound (s : Rib α) : Prop where
  fresh : ∀ {a ri}, s.path a = some ri → a < s.brk
  info : ∀ {a k}, a ∈ s.info k → ∃ ri, s.path a = some ri ∧ ri.rn = k
  aggregate : ∀ {k}, k ∈ s.aggregateNodes → (s.aggregate k).isSome
  nodup : s.aggregateNodes.Nodup

/-- Paths stay, and what is at a node is a path of that node. -/
structure Lasting (s s' : Rib α) : Prop where
  brk : s.brk ≤ s'.brk
  path : ∀ {a ri}, s.path a = some ri → ∃ ri', s'.path a = some ri' ∧ ri'.rn = ri.rn
  new : ∀ {a ri'}, s'.path a = some ri' → s.path a = none → s.brk ≤ a ∧ a < s'.brk
  info : ∀ {a k}, a ∈ s'.info k → a ∈ s.info k ∨ ∃ ri, s'.path a = some ri ∧ ri.rn = k
  nodes : s'.aggregateNodes = s.aggregateNodes
  aggregate : ∀ k, (s'.aggregate k).isSome = (s.aggregate k).isSome

/-- Paths outside of `A` keep their records and whether they are damped, and new ones have none. -/
structure Steady (A : Nat → Prop) (s s' : Rib α) : Prop extends Lasting s s' where
  same : ∀ {a ri ri'}, ¬ A a → s.path a = some ri → s'.path a = some ri' →
    ri'.dampInfo = ri.dampInfo ∧ ri'.flags .damped = ri.flags .damped
  unused : ∀ {a ri'}, ¬ A a → s'.path a = some ri' → s.path a = none → ri'.dampInfo = none ∧ ri'.flags .damped = false

/-- Nothing of the damping changes. -/
structure Quiet (s s' : Rib α) : Prop extends Steady (fun _ => False) s s' where
  damp : s'.damp = s.damp

theorem Lasting.refl (s : Rib α) : s.Lasting s :=
  ⟨le_rfl, fun h => ⟨_, h, rfl⟩, fun h h' => (by rw [h] at h'; cases h'), fun h => .inl h, rfl, fun _ => rfl⟩

theorem Lasting.trans (h : s.Lasting s') (h' : s'.Lasting s'') : s.Lasting s'' := by
  refine ⟨h.brk.trans h'.brk, ?_, ?_, ?_, h'.nodes.trans h.nodes, fun k => (h'.aggregate k).trans (h.aggregate k)⟩
  · intro a ri hri
    obtain ⟨ri1, h1, hrn1⟩ := h.path hri
    obtain ⟨ri2, h2, hrn2⟩ := h'.path h1
    exact ⟨ri2, h2, hrn2.trans hrn1⟩
  · intro a ri2 h2 hnone
    cases h1 : s'.path a with
    | none =>
      have := h'.new h2 h1
      exact ⟨h.brk.trans this.1, this.2⟩
    | some ri1 =>
      have := h.new h1 hnone
      exact ⟨this.1, this.2.trans_le h'.brk⟩
  · intro a k ha
    rcases h'.info ha with ha | ha
    · rcases h.info ha with ha | ⟨ri, hri, rfl⟩
      · exact .inl ha
      · obtain ⟨ri', hri', hrn⟩ := h'.path hri
        exact .inr ⟨ri', hri', hrn⟩
    · exact .inr ha

theorem Lasting.rn (h : s.Lasting s') (hri : s.path a = some ri) (hri' : s'.path a = some ri') : ri'.rn = ri.rn := by
  obtain ⟨rc, hrc, hrn⟩ := h.path hri
  rw [hri'] at hrc
  cases hrc
  exact hrn

theorem Sound.lasting (hs : s.Sound) (h : s.Lasting s') : s'.Sound := by
  refine ⟨?_, ?_, ?_, by rw [h.nodes]; exact hs.nodup⟩
  · intro a ri hri
    cases hold : s.path a with
    | none => exact (h.new hri hold).2
    | some ri => exact (hs.fresh hold).trans_le h.brk
  · intro a k ha
    rcases h.info ha with ha | ha
    · obtain ⟨ri, hri, rfl⟩ := hs.info ha
      exact h.path hri
    · exact ha
  · intro k hk
    rw [h.aggregate]
    rw [h.nodes] at hk
    exact hs.aggregate hk

section
variable {A : Nat → Prop}

theorem Steady.refl (s : Rib α) : s.Steady A s :=
  { Lasting.refl s with
    same := fun _ h h' => by
      rw [h] at h'
      cases h'
      exact ⟨rfl, rfl⟩
    unused := fun _ h h' => by
      rw [h] at h'
      cases h' }

theorem Steady.trans (h : s.Steady A s') (h' : s'.Steady A s'') : s.Steady A s'' :=
  { h.toLasting.trans h'.toLasting with
    same := by
      intro a ri ri'' ha hri hri''
      obtain ⟨ri', hri', -⟩ := h.path hri
      have h1 := h.same ha hri hri'
      have h2 := h'.same ha hri' hri''
      exact ⟨h2.1.trans h1.1, h2.2.trans h1.2⟩
    unused := by
      intro a ri'' ha hri'' hnone
      cases hri' : s'.path a with
      | none => exact h'.unused ha hri'' hri'
      | some ri' =>
        have h1 := h.unused ha hri' hnone
        have h2 := h'.same ha hri' hri''
        exact ⟨h2.1.trans h1.1, h2.2.trans h1.2⟩ }

theorem Steady.all (h : s.Steady (fun _ => False) s') : s.Steady A s' :=
  { h with
    same := fun _ => h.same id
    unused := fun _ => h.unused id }

end

theorem Quiet.refl (s : Rib α) : s.Quiet s := ⟨.refl s, rfl⟩

theorem Quiet.trans (h : s.Quiet s') (h' : s'.Quiet s'') : s.Quiet s'' :=
  ⟨h.toSteady.trans h'.toSteady, h'.damp.trans h.damp⟩

/-! ## Changes of one path -/

theorem path_putPath (s : Rib α) (a : Nat) (ri : BgpPath α) (c : Nat) :
    (s.putPath a ri).path c = if c = a then some ri else s.path c := update_apply ..

theorem path_putPath_self (s : Rib α) (a : Nat) (ri : BgpPath α) : (s.putPath a ri).path a = some ri := update_self ..

section
variable (h : s.path a = some ri)
include h

/-- No path is new. -/
theorem putPath_old (hb : (s.putPath a ri').path b = some rb) : s.path b ≠ none := by
  rw [path_putPath] at hb
  split_ifs at hb with hba
  · rw [hba, h]
    nofun
  · rw [hb]
    nofun

theorem putPath_keeps {R : BgpPath α → BgpPath α → Prop} (hR : R ri ri') (hrefl : ∀ rc, R rc rc)
    (hb : s.path b = some rb) :
    ∃ rc, (s.putPath a ri').path b = some rc ∧ R rb rc := by
  rw [path_putPath]
  split_ifs with hba
  · rw [hba, h] at hb
    cases hb
    exact ⟨ri', rfl, hR⟩
  · exact ⟨rb, hb, hrefl rb⟩

theorem Lasting.of_path (hrn : ri'.rn = ri.rn) (pcount : Nat → Afi → Safi → Int) :
    s.Lasting { s.putPath a ri' with pcount } :=
  ⟨le_rfl, putPath_keeps (R := fun ri ri' => ri'.rn = ri.rn) h hrn fun _ => rfl,
    fun hc hnone => absurd hnone (putPath_old h hc), fun h => .inl h, rfl, fun _ => rfl⟩

theorem Steady.of_path {A : Nat → Prop} (hrn : ri'.rn = ri.rn)
    (hsame : ¬ A a → ri'.dampInfo = ri.dampInfo ∧ ri'.flags .damped = ri.flags .damped)
    (pcount : Nat → Afi → Safi → Int) :
    s.Steady A { s.putPath a ri' with pcount } :=
  { Lasting.of_path h hrn pcount with
    same := by
      intro c rc rc' hA hc hc'
      change (s.putPath a ri').path c = some rc' at hc'
      rw [path_putPath] at hc'
      split_ifs at hc' with hca
      · subst hca
        cases h.symm.trans hc
        cases hc'
        exact hsame hA
      · cases hc.symm.trans hc'
        exact ⟨rfl, rfl⟩
    unused := fun _ hc hnone => absurd hnone (putPath_old h hc) }

section
variable (hrn : ri'.rn = ri.rn) (hdamp : ri'.dampInfo = ri.dampInfo) (hdamped : ri'.flags .damped = ri.flags .damped)
include hrn hdamp hdamped

theorem Quiet.of_path (pcount : Nat → Afi → Safi → Int) : s.Quiet { s.putPath a ri' with pcount } :=
  ⟨Steady.of_path h hrn (fun _ => ⟨hdamp, hdamped⟩) pcount, rfl⟩

theorem quiet_putPath : s.Quiet (s.putPath a ri') := Quiet.of_path h hrn hdamp hdamped s.pcount

end

theorem ends_modifyPath {f : BgpPath α → BgpPath α} : Ends (s.modifyPath a f) fun s' => s' = s.putPath a (f ri) := by
  rw [modifyPath, h]
  exact .some rfl

end

end Rib

section
variable (env : RibEnv α) (ri : BgpPath α)

/-- The flag for the number of prefixes, as `bgp_pcount_adjust` leaves it. -/
def RibEnv.recounted : BgpPath α :=
  if ri.rn.InMain ∧ ri.peer ≠ env.peerSelf then ri.setFlags [.counted] (!ri.holddown) else ri

theorem RibEnv.recounted_eq : ∃ flags, env.recounted ri = { ri with flags } := by
  unfold recounted
  split <;> exact ⟨_, rfl⟩

theorem RibEnv.recounted_flags (hf : f ≠ .counted) : (env.recounted ri).flags f = ri.flags f := by
  unfold recounted
  split
  · exact if_neg (by simpa using hf)
  · rfl

theorem BgpPath.setFlags_self (f : PathFlag) : ri.setFlags [f] (ri.flags f) = ri := by
  have : (fun g => if g ∈ [f] then ri.flags f else ri.flags g) = ri.flags := by
    funext g
    split_ifs with hg
    · rw [mem_singleton.1 hg]
    · rfl
  unfold setFlags
  rw [this]

end

theorem bgpPcountAdjust_eq (env : RibEnv α) (h : s.path a = some ri) :
    ∃ pcount, bgpPcountAdjust env s a = some { s.putPath a (env.recounted ri) with pcount } := by
  have hself : s.putPath a ri = s := by
    unfold Rib.putPath
    rw [← h, update_eq_self]
  unfold bgpPcountAdjust RibEnv.recounted
  rw [bind_of_some h]
  by_cases hcnts : ri.rn.InMain ∧ ri.peer ≠ env.peerSelf
  · rw [if_neg (by tauto)]
    split
    · rename_i hdown
      rw [hdown.1]
      exact ⟨_, rfl⟩
    split_ifs with hup
    · rw [Bool.eq_false_iff.2 hup.1]
      exact ⟨_, rfl⟩
    have : ri.flags .counted = !ri.holddown := by
      cases hc : ri.flags .counted <;> cases hh : ri.holddown <;> simp_all
    rw [← this, ri.setFlags_self, hself]
    exact ⟨s.pcount, rfl⟩
  · rw [if_pos (by tauto), if_neg hcnts, hself]
    exact ⟨s.pcount, rfl⟩

/-- A path with some flags changed, as `bgp_info_set_flag` and `bgp_info_unset_flag` leave it. -/
def RibEnv.flagged (env : RibEnv α) (ri : BgpPath α) (mask : List PathFlag) (v : Bool) : BgpPath α :=
  if mask.any PathFlag.useability then env.recounted (ri.setFlags mask v) else ri.setFlags mask v

section Flagged
variable {mask : List PathFlag} {v : Bool}

section
variable (env : RibEnv α) (ri : BgpPath α)

theorem RibEnv.flagged_eq : ∃ flags, env.flagged ri mask v = { ri with flags } := by
  unfold flagged
  split
  · exact env.recounted_eq (ri.setFlags mask v)
  · exact ⟨_, rfl⟩

theorem RibEnv.flagged_rn : (env.flagged ri mask v).rn = ri.rn := by
  obtain ⟨_, h⟩ := @flagged_eq _ mask v env ri
  rw [h]

theorem RibEnv.flagged_peer : (env.flagged ri mask v).peer = ri.peer := by
  obtain ⟨_, h⟩ := @flagged_eq _ mask v env ri
  rw [h]

theorem RibEnv.flagged_dampInfo : (env.flagged ri mask v).dampInfo = ri.dampInfo := by
  obtain ⟨_, h⟩ := @flagged_eq _ mask v env ri
  rw [h]
  rfl

theorem RibEnv.flagged_flags (hf : f ≠ .counted) :
    (env.flagged ri mask v).flags f = if f ∈ mask then v else ri.flags f := by
  unfold flagged
  split
  · exact env.recounted_flags _ hf
  · rfl

end

/-- The path `a` is changed to `ri`, and nothing else but the number of prefixes. -/
def Rib.Puts (s : Rib α) (a : Nat) (ri : BgpPath α) (s' : Rib α) : Prop := ∃ pcount, s' = { s.putPath a ri with pcount }

theorem ends_bgpInfoPutFlags (h : s.path a = some ri) :
    Ends (bgpInfoPutFlags env s a mask v) (s.Puts a (env.flagged ri mask v)) := by
  unfold bgpInfoPutFlags RibEnv.flagged
  refine (Rib.ends_modifyPath h).bind ?_
  rintro _ rfl
  split
  · obtain ⟨pcount, heq⟩ := bgpPcountAdjust_eq env (s.path_putPath_self a _)
    refine ⟨_, heq, pcount, ?_⟩
    unfold Rib.putPath
    rw [update_idem]
  · exact .some ⟨s.pcount, rfl⟩

theorem Rib.Puts.path (h : s.Puts a ri s') (c : Nat) : s'.path c = if c = a then some ri else s.path c := by
  obtain ⟨_, rfl⟩ := h
  exact s.path_putPath a ri c

theorem Rib.Puts.path_self (h : s.Puts a ri s') : s'.path a = some ri := by
  rw [h.path, if_pos rfl]

theorem Rib.Puts.info (h : s.Puts a ri s') : s'.info = s.info := by
  obtain ⟨_, rfl⟩ := h
  rfl

theorem Rib.Puts.quiet (h : s.path a = some ri) (hputs : s.Puts a ri' s') (hrn : ri'.rn = ri.rn)
    (hdamp : ri'.dampInfo = ri.dampInfo) (hdamped : ri'.flags .damped = ri.flags .damped) : s.Quiet s' := by
  obtain ⟨pcount, rfl⟩ := hputs
  exact Quiet.of_path h hrn hdamp hdamped pcount

theorem quiet_bgpInfoPutFlags (h : s.path a = some ri) (hmask : PathFlag.damped ∉ mask) :
    Ends (bgpInfoPutFlags env s a mask v) s.Quiet := by
  refine (ends_bgpInfoPutFlags h).mono fun s' hs' => ?_
  refine hs'.quiet h (env.flagged_rn ri) (env.flagged_dampInfo ri) ?_
  rw [env.flagged_flags ri (by decide), if_neg hmask]

end Flagged

theorem Rib.Puts.trans (h : s.Puts a ri s') (h' : s'.Puts a ri' s'') : s.Puts a ri' s'' := by
  obtain ⟨_, rfl⟩ := h
  obtain ⟨pcount, rfl⟩ := h'
  refine ⟨pcount, ?_⟩
  unfold Rib.putPath
  rw [update_idem]

section
variable {mask mask' : List PathFlag} {v v' : Bool}

theorem ends_putFlags_setFlags (h : s.path a = some ri) :
    Ends (do let s ← bgpInfoPutFlags env s a mask v; s.modifyPath a (·.setFlags mask' v'))
      (s.Puts a ((env.flagged ri mask v).setFlags mask' v')) := by
  refine (ends_bgpInfoPutFlags h).bind fun s' hs' => (Rib.ends_modifyPath hs'.path_self).mono ?_
  rintro _ rfl
  exact hs'.trans ⟨s'.pcount, rfl⟩

theorem RibEnv.flagged_setFlags_damped (env : RibEnv α) (ri : BgpPath α) (hmask : .damped ∉ mask)
    (hmask' : .damped ∉ mask') :
    ((env.flagged ri mask v).setFlags mask' v').flags .damped = ri.flags .damped := by
  show (if _ ∈ mask' then v' else (env.flagged ri mask v).flags .damped) = _
  rw [if_neg hmask', env.flagged_flags ri (by decide), if_neg hmask]

end

section
variable (h : s.path a = some ri)
include h

theorem ends_bgpInfoDelete :
    Ends (s.bgpInfoDelete env a) (s.Puts a ((env.flagged ri [.removed] true).setFlags [.valid] false)) :=
  ends_putFlags_setFlags h

theorem ends_bgpInfoRestore :
    Ends (s.bgpInfoRestore env a) (s.Puts a ((env.flagged ri [.removed] false).setFlags [.valid] true)) :=
  ends_putFlags_setFlags h

theorem quiet_bgpInfoDelete : Ends (s.bgpInfoDelete env a) s.Quiet :=
  (ends_bgpInfoDelete h).mono fun _ hs' => hs'.quiet h (env.flagged_rn ri) (env.flagged_dampInfo ri)
    (env.flagged_setFlags_damped ri (by decide) (by decide))

theorem quiet_bgpInfoRestore : Ends (s.bgpInfoRestore env a) s.Quiet :=
  (ends_bgpInfoRestore h).mono fun _ hs' => hs'.quiet h (env.flagged_rn ri) (env.flagged_dampInfo ri)
    (env.flagged_setFlags_damped ri (by decide) (by decide))

end

/-! ## Paths come and go -/

theorem Rib.Sound.path_new (hs : s.Sound) :
    (s.bgpInfoNew ri).2.path b = some rb ↔ b = s.brk ∧ rb = ri ∨ s.path b = some rb := by
  rw [show (s.bgpInfoNew ri).2.path b = if b = s.brk then some ri else s.path b from s.path_putPath s.brk ri b]
  split_ifs with hb
  · constructor
    · rintro ⟨⟩
      exact .inl ⟨hb, rfl⟩
    · rintro (⟨-, rfl⟩ | h)
      · rfl
      · exact absurd (hs.fresh h) (by omega)
  · rw [or_iff_right fun h => hb h.1]

theorem lasting_bgpInfoNew (hs : s.Sound) (ri : BgpPath α) : s.Lasting (s.bgpInfoNew ri).2 := by
  refine ⟨Nat.le_succ _, fun h => ⟨_, hs.path_new.2 (.inr h), rfl⟩, fun hc hnone => ?_, .inl, rfl, fun _ => rfl⟩
  rcases hs.path_new.1 hc with ⟨rfl, -⟩ | hc
  · exact ⟨le_rfl, Nat.lt_succ_self _⟩
  · rw [hnone] at hc
    cases hc

theorem quiet_bgpInfoNew (hs : s.Sound) (hdamp : ri.dampInfo = none) (hdamped : ri.flags .damped = false) :
    s.Quiet (s.bgpInfoNew ri).2 := by
  refine ⟨⟨lasting_bgpInfoNew hs ri, ?_, ?_⟩, rfl⟩
  · intro c rc rc' _ hc hc'
    rw [hs.path_new.2 (.inr hc)] at hc'
    cases hc'
    exact ⟨rfl, rfl⟩
  · intro c rc _ hc hnone
    rcases hs.path_new.1 hc with ⟨-, rfl⟩ | hc
    · exact ⟨hdamp, hdamped⟩
    · rw [hnone] at hc
      cases hc

theorem path_bgpInfoNew (s : Rib α) (ri : BgpPath α) : (s.bgpInfoNew ri).2.path s.brk = some ri := by
  exact update_self ..

theorem Rib.Quiet.of_info {nodes : List RibNode} {info : RibNode → List Nat}
    (h : ∀ {a k}, a ∈ info k → a ∈ s.info k ∨ ∃ ri, s.path a = some ri ∧ ri.rn = k) : s.Quiet { s with nodes, info } :=
  { Quiet.refl s with info := h }

theorem mem_update_cons {κ : Type} [DecidableEq κ] {f : κ → List Nat} {x k : κ} {c : Nat} :
    c ∈ update f x (a :: f x) k ↔ k = x ∧ c = a ∨ c ∈ f k := by
  by_cases hk : k = x
  · rw [hk, update_self, mem_cons, and_iff_right rfl]
  · rw [update_of_ne hk, or_iff_right fun h => hk h.1]

theorem update_none_eq_some {κ β : Type} [DecidableEq κ] {f : κ → Option β} {x k : κ} {v : β} :
    update f x none k = some v ↔ k ≠ x ∧ f k = some v := by
  rw [update_apply]
  split <;> simp [*]

/-- A path that is at its node no more is freed. -/
theorem Rib.Sound.free (hs : s.Sound) (h : s.path a = some ri) (hout : a ∉ s.info ri.rn) :
    ({ s with path := update s.path a none } : Rib α).Sound := by
  refine ⟨fun hrc => hs.fresh (update_none_eq_some.1 hrc).2, fun hc => ?_, hs.aggregate, hs.nodup⟩
  obtain ⟨rc, hrc, rfl⟩ := hs.info hc
  refine ⟨rc, update_none_eq_some.2 ⟨?_, hrc⟩, rfl⟩
  rintro rfl
  rw [h] at hrc
  cases hrc
  exact hout hc

theorem quiet_bgpInfoAdd (h : s.path a = some ri) : Ends (s.bgpInfoAdd a) s.Quiet := by
  unfold Rib.bgpInfoAdd
  rw [h]
  refine .some (Rib.Quiet.of_info fun hc => ?_)
  rcases mem_update_cons.1 hc with ⟨rfl, rfl⟩ | hc
  · exact .inr ⟨ri, h, rfl⟩
  · exact .inl hc

theorem quiet_bgpInfoReap (h : s.path a = some ri) : Ends (s.bgpInfoReap a) s.Quiet := by
  unfold Rib.bgpInfoReap
  rw [h]
  refine .some (Rib.Quiet.of_info ?_)
  intro c k hc
  rw [update_apply] at hc
  split_ifs at hc with hk
  · rw [hk]
    exact .inl (mem_of_mem_erase hc)
  · exact .inl hc

/-! ## Aggregates -/

/-- How the work on the aggregates changes a path: an own path may be deleted, another one may be suppressed. -/
structure BgpPath.Touched (env : RibEnv α) (ri ri' : BgpPath α) : Prop where
  peer : ri'.peer = ri.peer
  rn : ri'.rn = ri.rn
  dampInfo : ri'.dampInfo = ri.dampInfo
  flags : ∀ {f}, f ≠ .attrChanged → ri.peer ≠ env.peerSelf ∨ f ≠ .removed ∧ f ≠ .valid → ri'.flags f = ri.flags f

namespace BgpPath

theorem Touched.refl (env : RibEnv α) (ri : BgpPath α) : ri.Touched env ri := ⟨rfl, rfl, rfl, fun _ _ => rfl⟩

theorem Touched.trans {ri'' : BgpPath α} (h : ri.Touched env ri') (h' : ri'.Touched env ri'') :
    ri.Touched env ri'' where
  peer := h'.peer.trans h.peer
  rn := h'.rn.trans h.rn
  dampInfo := h'.dampInfo.trans h.dampInfo
  flags hf hown := (h'.flags hf (by rwa [h.peer])).trans (h.flags hf hown)

theorem touched_suppress (env : RibEnv α) (ri : BgpPath α) (n : Int) :
    ri.Touched env { ri with extra := some { ri.getExtra with suppress := n } } := by
  refine ⟨rfl, rfl, ?_, fun _ _ => rfl⟩
  unfold dampInfo getExtra
  cases ri.extra <;> rfl

theorem touched_attrChanged (env : RibEnv α) (ri : BgpPath α) (v : Bool) :
    ri.Touched env (ri.setFlags [.attrChanged] v) :=
  ⟨rfl, rfl, rfl, fun hf _ => if_neg (by simpa using hf)⟩

end BgpPath

namespace Rib

/-- What the work on the aggregates leaves: nothing changes but the counts of the aggregates, how often paths are
suppressed, and the own paths, which come and are deleted. -/
structure Reworked (env : RibEnv α) (s s' : Rib α) : Prop extends Quiet s s' where
  touched : ∀ {a ri ri'}, s.path a = some ri → s'.path a = some ri' → ri.Touched env ri'
  made : ∀ {a ri'}, s'.path a = some ri' → s.path a = none → ri'.peer = env.peerSelf ∧
    ∀ {f}, f ≠ .valid → f ≠ .removed → f ≠ .attrChanged → ri'.flags f = false
  pcount : s'.pcount = s.pcount

theorem Reworked.refl (env : RibEnv α) (s : Rib α) : s.Reworked env s :=
  { Quiet.refl s with
    touched := fun h h' => by
      rw [h] at h'
      cases h'
      exact .refl env _
    made := fun h h' => by
      rw [h] at h'
      cases h'
    pcount := rfl }

theorem Reworked.trans (h : s.Reworked env s') (h' : s'.Reworked env s'') : s.Reworked env s'' :=
  { h.toQuiet.trans h'.toQuiet with
    touched := by
      intro a ri ri'' hri hri''
      obtain ⟨ri', hri', -⟩ := h.path hri
      exact (h.touched hri hri').trans (h'.touched hri' hri'')
    made := by
      intro a ri'' hri'' hnone
      cases hri' : s'.path a with
      | none => exact h'.made hri'' hri'
      | some ri' =>
        obtain ⟨hself, hfl⟩ := h.made hri' hnone
        have htouched := h'.touched hri' hri''
        refine ⟨htouched.peer.trans hself, fun hvalid hrem hattr => ?_⟩
        rw [htouched.flags hattr (.inr ⟨hrem, hvalid⟩)]
        exact hfl hvalid hrem hattr
    pcount := h'.pcount.trans h.pcount }

theorem Reworked.aggregate_isSome (h : s.Reworked env s') (hk : (s.aggregate k).isSome) : (s'.aggregate k).isSome := by
  rwa [h.aggregate]

/-- Where the pointer is not null, it leads to a path. -/
def Leads (s : Rib α) (p : Option Nat) : Prop := ∀ a, p = some a → ∃ ri, s.path a = some ri

theorem Leads.reworked {p : Option Nat} (hp : s.Leads p) (h : s.Reworked env s') : s'.Leads p := by
  intro a ha
  obtain ⟨ri, hri⟩ := hp a ha
  obtain ⟨ri', hri', -⟩ := h.path hri
  exact ⟨ri', hri'⟩

theorem Reworked.and_then {x : Option (Rib α)} {f : Rib α → Option (Rib α)} (hx : Ends x (s.Reworked env))
    (hf : ∀ s', s.Reworked env s' → Ends (f s') (s'.Reworked env)) : Ends (x >>= f) (s.Reworked env) :=
  hx.bind fun s' hs' => (hf s' hs').mono fun _ h => hs'.trans h

theorem reworked_putPath (h : s.path a = some ri) (htouched : ri.Touched env ri') : s.Reworked env (s.putPath a ri') :=
  { quiet_putPath h htouched.rn htouched.dampInfo (htouched.flags (by decide) (.inr (by decide))) with
    touched := by
      intro c rc rc' hc hc'
      obtain ⟨rb, hb, htouched'⟩ := putPath_keeps h htouched (.refl env) hc
      cases hb.symm.trans hc'
      exact htouched'
    made := fun hc hnone => absurd hnone (putPath_old h hc)
    pcount := rfl }

end Rib

theorem reworked_putAggregate {agg : BgpAggregate} (h : (s.aggregate k).isSome) :
    s.Reworked env (s.putAggregate k agg) := by
  refine { Rib.Reworked.refl env s with aggregate := fun k' => ?_ }
  show (update s.aggregate k (some agg) k').isSome = _
  rw [update_apply]
  split_ifs with hk
  · rw [hk, h, isSome_some]
  · rfl

theorem reworked_addCount (env : RibEnv α) (n : UInt64) (h : (s.aggregate k).isSome) :
    Ends (s.addCount k n) (s.Reworked env) := by
  obtain ⟨agg, hagg⟩ := isSome_iff_exists.1 h
  unfold Rib.addCount
  rw [hagg]
  exact .some (reworked_putAggregate h)

theorem reworked_putSuppress (h : s.path a = some ri) (n : Int) : s.Reworked env (s.putSuppress a ri n) :=
  Rib.reworked_putPath h (ri.touched_suppress env n)

theorem path_putSuppress (s : Rib α) (a : Nat) (ri : BgpPath α) (n : Int) :
    (s.putSuppress a ri n).path a = some { ri with extra := some { ri.getExtra with suppress := n } } :=
  s.path_putPath_self a _

section
variable (h : s.path a = some ri)
include h

/-- Flags that no number goes by are only set. -/
theorem bgpInfoPutFlags_plain {mask : List PathFlag} {v : Bool} (hmask : mask.any PathFlag.useability = false) :
    bgpInfoPutFlags env s a mask v = some (s.putPath a (ri.setFlags mask v)) := by
  unfold bgpInfoPutFlags Rib.modifyPath
  rw [h, hmask]
  rfl

theorem reworked_attrChanged : Ends (bgpInfoSetFlag env s a [.attrChanged]) (s.Reworked env) := by
  unfold bgpInfoSetFlag
  rw [bgpInfoPutFlags_plain h rfl]
  exact .some (Rib.reworked_putPath h (ri.touched_attrChanged env true))

theorem reworked_suppressPath (agg : BgpAggregate) : Ends (suppressPath env agg s a ri) (s.Reworked env) := by
  refine .ite (fun _ => ?_) fun _ => .some (.refl env s)
  exact (reworked_attrChanged (path_putSuppress ..)).mono fun _ h' => (reworked_putSuppress h _).trans h'

theorem reworked_unsuppressPath (agg : BgpAggregate) : Ends (unsuppressPath env agg s a ri) (s.Reworked env) := by
  refine .ite (fun _ => ?_) fun _ => .some (.refl env s)
  refine .ite (fun _ => ?_) fun _ => .some (reworked_putSuppress h _)
  exact (reworked_attrChanged (path_putSuppress ..)).mono fun _ h' => (reworked_putSuppress h _).trans h'

end

variable {st : Rib α × List α}

section
variable (hk : (st.1.aggregate k).isSome)
include hk

theorem reworked_takeIn {del : Option Nat} (h : st.1.path a = some ri) :
    Ends (takeIn env k del st a) fun st' => st.1.Reworked env st'.1 := by
  obtain ⟨agg, hagg⟩ := isSome_iff_exists.1 hk
  refine .next h (.ite (fun _ => .some (.refl env _)) fun _ => .next hagg ?_)
  refine (reworked_suppressPath h agg).bind fun s1 h1 => ?_
  refine (reworked_addCount env 1 (h1.aggregate_isSome hk)).bind fun s2 h2 => ?_
  exact .some (h1.trans h2)

theorem reworked_takeNew (env : RibEnv α) (h : st.1.path a = some ri) :
    Ends (takeNew k a st) fun st' => st.1.Reworked env st'.1 := by
  obtain ⟨agg, hagg⟩ := isSome_iff_exists.1 hk
  unfold takeNew Rib.addCount
  refine .next h (.next (by rw [hagg, map_some]) ?_)
  have hcnt : st.1.Reworked env (st.1.putAggregate k { agg with count := agg.count + 1 }) := reworked_putAggregate hk
  obtain ⟨agg', hagg'⟩ := isSome_iff_exists.1 (hcnt.aggregate_isSome hk)
  refine .next hagg' (.some ?_)
  split
  · exact hcnt.trans (reworked_putSuppress (s := st.1.putAggregate k _) h _)
  · exact hcnt

theorem reworked_takeRinew (env : RibEnv α) {rinew : Option Nat} (hnew : st.1.Leads rinew) :
    Ends (takeRinew k st rinew) fun st' => st.1.Reworked env st'.1 := by
  cases rinew with
  | none => exact .some (.refl env _)
  | some a =>
    obtain ⟨ri, hri⟩ := hnew a rfl
    exact reworked_takeNew hk env hri

end

theorem reworked_addAggregatePath (hs : s.Sound) (attr : α) :
    Ends (addAggregatePath env s k attr) (s.Reworked env) := by
  unfold addAggregatePath
  let ri : BgpPath α :=
    { peer := env.peerSelf, type := zebraRouteBgp, subType := .aggregate, attr, rn := k, flags := (· = .valid) }
  have hpath := path_bgpInfoNew s ri
  obtain ⟨s1, hs1, hquiet⟩ := quiet_bgpInfoAdd hpath
  refine ⟨s1, hs1, ?_⟩
  unfold Rib.bgpInfoAdd at hs1
  rw [hpath] at hs1
  cases hs1
  refine { (quiet_bgpInfoNew hs rfl rfl).trans hquiet with touched := ?_, made := ?_, pcount := rfl }
  · intro c rc rc' hc hc'
    cases (hs.path_new.2 (.inr hc)).symm.trans hc'
    exact .refl env _
  · intro c rc hc hnone
    rcases hs.path_new.1 hc with ⟨-, rfl⟩ | hc
    · exact ⟨rfl, fun hvalid _ _ => decide_eq_false hvalid⟩
    · rw [hnone] at hc
      cases hc

theorem Rib.Sound.below (hs : s.Sound) (ha : a ∈ s.below k) : ∃ ri, s.path a = some ri := by
  obtain ⟨n, -, ha⟩ := mem_flatMap.1 ha
  obtain ⟨ri, hri, -⟩ := hs.info ha
  exact ⟨ri, hri⟩

theorem reworked_bgpAggregateRoute (hs : s.Sound) (hk : (s.aggregate k).isSome) (rinew del : Option Nat)
    (hnew : s.Leads rinew) : Ends (bgpAggregateRoute env s k rinew del) (s.Reworked env) := by
  have hloop : Ends ((s.below k).foldlM (takeIn env k del) (s, [])) fun st => s.Reworked env st.1 := by
    refine Ends.foldlM (.refl env s) fun st hst a ha => ?_
    obtain ⟨ri, hri⟩ := hs.below ha
    obtain ⟨ri', hri', -⟩ := hst.path hri
    exact (reworked_takeIn (hst.aggregate_isSome hk) hri').mono fun _ h => hst.trans h
  refine hloop.bind fun st hst => ?_
  refine (reworked_takeRinew (hst.aggregate_isSome hk) env (hnew.reworked hst)).bind fun st' hst' => ?_
  have hboth := hst.trans hst'
  obtain ⟨agg, hagg⟩ := isSome_iff_exists.1 (hboth.aggregate_isSome hk)
  refine .next hagg (.ite (fun _ => ?_) fun _ => .some hboth)
  exact (reworked_addAggregatePath (hs.lasting hboth.toLasting) _).mono fun _ h => hboth.trans h

theorem reworked_takeOut (h : s.path a = some ri) (hk : (s.aggregate k).isSome) :
    Ends (takeOut env k s a) (s.Reworked env) := by
  obtain ⟨agg, hagg⟩ := isSome_iff_exists.1 hk
  refine .next h (.ite (fun _ => .some (.refl env _)) fun _ => .next hagg ?_)
  exact Rib.Reworked.and_then (reworked_unsuppressPath h agg) fun s1 h1 =>
    reworked_addCount env _ (h1.aggregate_isSome hk)

/-- The path of an aggregate is deleted; no peer's number of prefixes changes. -/
theorem reworked_bgpInfoDelete (h : s.path a = some ri) (hself : ri.peer = env.peerSelf) :
    Ends (s.bgpInfoDelete env a) (s.Reworked env) := by
  have hflagged : bgpInfoSetFlag env s a [.removed] = some (s.putPath a (ri.setFlags [.removed] true)) := by
    unfold bgpInfoSetFlag bgpInfoPutFlags Rib.modifyPath
    rw [h, bind_of_some (map_some ..), if_pos (by rfl)]
    unfold bgpPcountAdjust
    rw [Rib.path_putPath_self, bind_eq_bind]
    exact if_pos (.inr hself)
  refine .next hflagged ((Rib.ends_modifyPath (s.path_putPath_self a _)).mono ?_)
  rintro _ rfl
  have htouched : ri.Touched env ((ri.setFlags [.removed] true).setFlags [.valid] false) := by
    refine ⟨rfl, rfl, rfl, fun {f} hf hdone => ?_⟩
    obtain ⟨hrem, hvalid⟩ := hdone.resolve_left (absurd hself)
    show (if f ∈ [.valid] then false else if f ∈ [.removed] then true else ri.flags f) = ri.flags f
    rw [if_neg (by simpa using hvalid), if_neg (by simpa using hrem)]
  have := Rib.reworked_putPath h htouched
  unfold Rib.putPath at this ⊢
  rwa [update_idem]

section
variable (hs : s.Sound)
include hs

theorem reworked_bgpAggregateDelete (hk : (s.aggregate k).isSome) :
    Ends (bgpAggregateDelete env s k) (s.Reworked env) := by
  refine .ite (fun _ => .some (.refl env s)) fun _ => ?_
  have hloop : Ends ((s.below k).foldlM (takeOut env k) s) (s.Reworked env) := by
    refine Ends.foldlM (.refl env s) fun st hst a ha => ?_
    obtain ⟨ri, hri⟩ := hs.below ha
    obtain ⟨ri', hri', -⟩ := hst.path hri
    exact (reworked_takeOut hri' (hst.aggregate_isSome hk)).mono fun _ h => hst.trans h
  refine Rib.Reworked.and_then hloop fun s1 h1 => ?_
  split
  · rename_i a ha
    obtain ⟨ri, hri, -⟩ := (hs.lasting h1.toLasting).info (mem_of_find?_eq_some ha)
    have hfound := List.find?_some ha
    unfold isAggregatePath at hfound
    rw [hri, any_some, decide_eq_true_eq] at hfound
    exact reworked_bgpInfoDelete hri hfound.1
  · exact .some (.refl env _)

theorem Rib.Sound.above (hk : k ∈ s.above rn) : (s.aggregate k).isSome := by
  unfold Rib.above at hk
  split at hk
  · cases hk
  · exact hs.aggregate (mem_filter.1 hk).1

theorem reworked_rebuild (hk : (s.aggregate k).isSome) (rinew del : Option Nat) (hnew : s.Leads rinew) :
    Ends (do let s ← bgpAggregateDelete env s k; bgpAggregateRoute env s k rinew del) (s.Reworked env) := by
  refine Rib.Reworked.and_then (reworked_bgpAggregateDelete hs hk) fun s1 h1 => ?_
  exact reworked_bgpAggregateRoute (hs.lasting h1.toLasting) (h1.aggregate_isSome hk) rinew del (hnew.reworked h1)

theorem reworked_rebuildAll (l : List RibNode) (hl : ∀ k ∈ l, (s.aggregate k).isSome)
    (rinew del : Option Nat) (hnew : s.Leads rinew) :
    Ends (l.foldlM (fun s k => do let s ← bgpAggregateDelete env s k; bgpAggregateRoute env s k rinew del) s)
      (s.Reworked env) := by
  refine Ends.foldlM (.refl env s) fun st hst k hk => ?_
  exact (reworked_rebuild (hs.lasting hst.toLasting) (hst.aggregate_isSome (hl k hk)) rinew del
    (hnew.reworked hst)).mono
    fun _ h => hst.trans h

section
variable (h : s.path a = some ri)
include h

theorem reworked_bgpAggregateIncrement : Ends (bgpAggregateIncrement env s a) (s.Reworked env) := by
  refine .next h (.ite (fun _ => .some (.refl env s)) fun _ => ?_)
  refine reworked_rebuildAll hs _ (fun k hk => hs.above hk) (some a) none ?_
  rintro _ ⟨⟩
  exact ⟨ri, h⟩

theorem reworked_bgpAggregateDecrement : Ends (bgpAggregateDecrement env s a) (s.Reworked env) := by
  refine .next h (reworked_rebuildAll hs _ (fun k hk => hs.above hk) none (some a) ?_)
  rintro _ ⟨⟩

theorem quiet_bgpAggregateIncrement :
    Ends (bgpAggregateIncrement env s a) s.Quiet := (reworked_bgpAggregateIncrement hs h).mono fun _ h => h.toQuiet

theorem quiet_bgpAggregateDecrement :
    Ends (bgpAggregateDecrement env s a) s.Quiet := (reworked_bgpAggregateDecrement hs h).mono fun _ h => h.toQuiet

end

/-! ## Calls -/

theorem Rib.Sound.findPath {found : BgpPath α → Bool} (ha : s.findPath rn found = some a) :
    ∃ ri, s.path a = some ri ∧ ri.rn = rn := hs.info (mem_of_find?_eq_some ha)

end

section
variable (ri : BgpPath α)

theorem BgpPath.withTag_rn : ri.withTag.rn = ri.rn := by
  unfold withTag
  split <;> rfl

theorem BgpPath.withTag_peer : ri.withTag.peer = ri.peer := by
  unfold withTag
  split <;> rfl

theorem BgpPath.withTag_dampInfo : ri.withTag.dampInfo = ri.dampInfo := by
  unfold withTag
  split
  · unfold dampInfo getExtra
    cases ri.extra <;> rfl
  · rfl

theorem BgpPath.withTag_flags : ri.withTag.flags = ri.flags := by
  unfold withTag
  split <;> rfl

end

/-! ## Aggregates are configured -/

theorem perm_insertAggregate (k : RibNode) : ∀ nodes : List RibNode, (insertAggregate k nodes).Perm (k :: nodes)
  | [] => .refl _
  | n :: nodes => by
    unfold insertAggregate
    split
    · exact ((perm_insertAggregate k nodes).cons n).trans (.swap ..)
    · exact .refl _

namespace Rib

theorem Sound.forget (hs : s.Sound) (k : RibNode) : ({ s with
    aggregate := update s.aggregate k none, aggregateNodes := s.aggregateNodes.erase k } : Rib α).Sound := by
  refine ⟨hs.fresh, hs.info, ?_, hs.nodup.erase k⟩
  intro k' hk'
  have hne : k' ≠ k := by
    rintro rfl
    exact hs.nodup.not_mem_erase hk'
  show (update s.aggregate k none k').isSome
  rw [update_of_ne hne]
  exact hs.aggregate (mem_of_mem_erase hk')

theorem aggregate_configure (s : Rib α) (k : RibNode) (agg : BgpAggregate) :
    (({ s.putAggregate k agg with
      aggregateNodes := insertAggregate k s.aggregateNodes } : Rib α).aggregate k).isSome := by
  show (update s.aggregate k (some agg) k).isSome
  rw [update_self]
  rfl

theorem Sound.configure (hs : s.Sound) (agg : BgpAggregate) (hk : k ∉ s.aggregateNodes) :
    ({ s.putAggregate k agg with aggregateNodes := insertAggregate k s.aggregateNodes } : Rib α).Sound := by
  have hperm := perm_insertAggregate k s.aggregateNodes
  refine ⟨hs.fresh, hs.info, ?_, hperm.nodup_iff.2 (nodup_cons.2 ⟨hk, hs.nodup⟩)⟩
  intro k' hk'
  show (update s.aggregate k (some agg) k').isSome
  rw [update_apply]
  split_ifs with hne
  · rfl
  · exact hs.aggregate ((mem_cons.1 (hperm.mem_iff.1 hk')).resolve_left hne)

end Rib

theorem sound_start : ({} : Rib α).Sound := ⟨nofun, nofun, nofun, nodup_nil⟩

/-- Calls that are made in any state. -/
theorem RibRun.calls [DecidableEq α] {C : Rib α → RibCall α → Prop} :
    ∀ (calls : List (RibCall α)) {s : Rib α}, RibRun env C s →
    (∀ call ∈ calls, ∀ s, call.Legal s ∧ C s call) → calls.foldlM (RibCall.exec env) s = some s' → RibRun env C s'
  | [], s, h, _, hexec => by
    cases hexec
    exact h
  | call :: calls, s, h, hcalls, hexec => by
    obtain ⟨s1, hs1, hexec⟩ := bind_eq_some_iff.1 hexec
    have hcall := hcalls call (mem_cons_self ..) s
    exact RibRun.calls calls (h.step hcall.1 hcall.2 hs1) (fun c hc => hcalls c (mem_cons_of_mem _ hc)) hexec

end Sound

/-! ## `bgp dampening 2 750 1000 1` -/

/-- The parameters: after one minute a penalty counts as decayed to nothing, and a reuse list may wait longer. -/
def minuteDamping : DampConfig where
  suppressValue := 1000
  reuseLimit := 750
  reuseLimit_pos := by decide
  maxSuppressTime := 60
  ceiling := 1060
  decayArraySize := 12
  decayed _ penalty := penalty
  reuseIndexSize := 1024
  scaled penalty := if 750 < penalty then -1 else 0
  reuseIndex i := if i = 0 then 1146 else 1134
  reuseListSize := 7
  reuseListSize_pos := by decide

/-- External peers on connected networks. -/
def minuteEnv : RibEnv Bool where
  peerSelf := 0
  sort _ := .ebgp
  ttl _ := 1
  disableConnectedCheck _ := false
  dampening _ _ := true
  damp := minuteDamping
  aggregateAttr _ _ := false

/-- 10.0.`c`.0/24. -/
def flapNode (c : UInt8) : RibNode where
  afi := .ip
  safi := .unicast
  p := ip4 10 0 c 0 24 slash24_le

theorem flapNode_ofMain (c : UInt8) : (flapNode c).OfMain := ⟨rfl, fun _ => rfl⟩

end Tarpan.Bgpd
