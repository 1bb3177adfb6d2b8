/-
The selection of the best path under Wiser. The comparison puts the paths in the order of weight,
local preference and path cost and stops there, so without deterministic-med a least path of that
order is chosen. With deterministic-med the standard comparison has chosen in each group before.
-/
import Tarpan.Bgpd.Route.Selection
import Mathlib.Data.Prod.Lex

namespace Tarpan.Bgpd

open Base List Option SelectState

/-! ## The order of Wiser -/

/-- `path_cost` of a path with Wiser data. -/
def BgpInfo.pathCost (messages : Messages) (bi : BgpInfo) : UInt32 := (bi.wiser messages).elim 0 (·.pathCost)

/-- `x` is strictly better than `y`: higher weight, then higher local preference, then lower cost. -/
def WiserBetter (bgp : Bgp) (messages : Messages) (x y : BgpInfo) : Prop :=
  x.weight > y.weight ∨ x.weight = y.weight ∧
    (x.localPref bgp > y.localPref bgp ∨ x.localPref bgp = y.localPref bgp ∧ x.pathCost messages < y.pathCost messages)

instance (bgp : Bgp) (messages : Messages) (x y : BgpInfo) : Decidable (WiserBetter bgp messages x y) :=
  inferInstanceAs (Decidable (_ ∨ _))

/-- A path among paths that came from peers and that all carry Wiser data. -/
structure WiserPath (messages : Messages) (bi : BgpInfo) : Prop where
  normal : bi.subType = .normal
  wiser : (bi.wiser messages).isSome

/-- The place of a path in the order, the best first. -/
def wiserKey (bgp : Bgp) (messages : Messages) (bi : BgpInfo) : ℕ ×ₗ ℕ ×ₗ ℕ :=
  toLex (2 ^ 32 - bi.weight.toNat, toLex (2 ^ 32 - (bi.localPref bgp).toNat, (bi.pathCost messages).toNat))

variable {bgp : Bgp} {messages : Messages} {x y : BgpInfo}

theorem wiserBetter_iff : WiserBetter bgp messages x y ↔ wiserKey bgp messages x < wiserKey bgp messages y := by
  have hy := y.weight.toNat_lt
  have hy' := (y.localPref bgp).toNat_lt
  simp only [WiserBetter, wiserKey, Prod.Lex.toLex_lt_toLex, UInt32.lt_iff_toNat_lt, ← UInt32.toNat_inj]
  omega

/-- Between paths with Wiser data the comparison of Wiser is the order, and never finds them equal. -/
theorem wiserInfoCmp_eq (hx : WiserPath messages x) (hy : WiserPath messages y) :
    wiserInfoCmp messages bgp (some x) (some y) = (decide (WiserBetter bgp messages x y), false) := by
  obtain ⟨wx, hwx⟩ := isSome_iff_exists.1 hx.wiser
  obtain ⟨wy, hwy⟩ := isSome_iff_exists.1 hy.wiser
  have hrt : localRouteCheck x y = none := by simp [localRouteCheck, hx.normal, hy.normal]
  rw [wiserInfoCmp_some]
  simp only [localChecks, preferHigher, hrt, wiserCostCheck, hwx, hwy, WiserBetter, BgpInfo.pathCost,
    UInt32.lt_iff_toNat_lt, ← UInt32.toNat_inj]
  rcases Nat.lt_trichotomy y.weight.toNat x.weight.toNat with hw | hw | hw
  · simp [decided, preferLower_of_lt hw, hw]
  · rw [hw]
    rcases Nat.lt_trichotomy (y.localPref bgp).toNat (x.localPref bgp).toNat with hp | hp | hp
    · simp [decided, preferLower_of_lt hp, hp]
    · simp [decided, hp]
    · simp [decided, preferLower_of_gt hp, hp.not_gt, hp.ne]
  · simp [decided, preferLower_of_gt hw, hw.not_gt, hw.ne]

variable {l : List InfoPtr}

theorem exists_argmin_wiserKey (bgp : Bgp) (messages : Messages) (mem : InfoPtr → BgpInfo)
    (hne : l ≠ []) : ∃ best, (l.argmin fun ri => wiserKey bgp messages (mem ri)) = some best :=
  ne_none_iff_exists'.1 (mt argmin_eq_none.1 hne)

theorem wiserKey_le_of_argmin {mem : InfoPtr → BgpInfo}
    {best ri : InfoPtr} (h : (l.argmin fun ri => wiserKey bgp messages (mem ri)) = some best) (hri : ri ∈ l) :
    wiserKey bgp messages (mem best) ≤ wiserKey bgp messages (mem ri) :=
  le_of_mem_argmin (f := fun ri => wiserKey bgp messages (mem ri)) hri h

/-- A usable path from the external peer numbered `n`, with its message at the address `n`. -/
def samplePath (aspath : Aspath) (n : Nat) : BgpInfo where
  peer := { as := UInt32.ofNat n, sort := .ebgp, remoteId := UInt32.ofNat n, suRemote := .sin (UInt32.ofNat n) }
  attr := { aspath := some aspath, tarpan := some ⟨UInt64.ofNat n, some (UInt64.ofNat n)⟩ }
  igpmetric := none
  flags := fun flag => flag == .valid
  subType := .normal

/-- Messages with Wiser data of the given costs. -/
def sampleMessages (cost : Addr → UInt32) : Messages := fun addr =>
  some { version := 12, wiser := some ⟨cost addr, 0, ⟨0, .none⟩, .none⟩ }

/-! ## Paths without Wiser data -/

theorem wiserCostCheck_eq_none_iff :
    wiserCostCheck messages x y = none ↔ x.wiser messages = none ∨ y.wiser messages = none := by
  unfold wiserCostCheck
  cases x.wiser messages <;> cases y.wiser messages <;> simp

/-- Where one of two paths has no Wiser data, or is missing, every step of the two processes is the same. -/
theorem wiserInfoCmp_eq_bgpInfoCmp (messages : Messages) (bgp : Bgp) (new exist : Option BgpInfo)
    (h : (new.bind fun bi => bi.wiser messages) = none ∨ (exist.bind fun bi => bi.wiser messages) = none) :
    wiserInfoCmp messages bgp new exist = bgpInfoCmp bgp new exist := by
  cases new with
  | none => rfl
  | some new =>
    cases exist with
    | none => rfl
    | some exist =>
      have hcost := wiserCostCheck_eq_none_iff.2 h
      rw [wiserInfoCmp_some, bgpInfoCmp_some, hcost, decided_none]

/-- The path without Wiser data has the lower router id and wins in both. -/
theorem wiserInfoCmp_eq_bgpInfoCmp_one_plain :
    (bgpInfoCmp {} (some (samplePath [] 1)) (some (samplePath [] 2))).1 = true ∧
    wiserInfoCmp (fun addr => if addr = 1 then none else sampleMessages (fun _ => 5) addr) {} (some (samplePath [] 1))
      (some (samplePath [] 2)) = bgpInfoCmp {} (some (samplePath [] 1)) (some (samplePath [] 2)) :=
  ⟨by decide, wiserInfoCmp_eq_bgpInfoCmp _ _ _ _ (.inl rfl)⟩

/-! ## Selection without deterministic-med -/

section Selection
variable {bgp : Bgp} {messages : Messages} (cfg : BgpMaxpathsCfg) {mem : InfoPtr → BgpInfo} {rn : List InfoPtr}

theorem bestBeats_wiser {ri1 ri2 : InfoPtr} (h1 : WiserPath messages (mem ri1)) (h2 : WiserPath messages (mem ri2)) :
    bestBeats bgp (some (wiserInfoCmp messages)) mem ri1 ri2 =
      decide (wiserKey bgp messages (mem ri1) < wiserKey bgp messages (mem ri2)) := by
  show (wiserInfoCmp messages bgp (some (mem ri1)) (some (mem ri2))).1 = _
  rw [wiserInfoCmp_eq h1 h2, decide_eq_decide]
  exact wiserBetter_iff

theorem knockout_wiser (h : ∀ ri ∈ l, WiserPath messages (mem ri)) :
    knockout (bestBeats bgp (some (wiserInfoCmp messages)) mem) l = l.argmin fun ri => wiserKey bgp messages (mem ri) :=
  knockout_eq_argmin fun x hx y hy => bestBeats_wiser (h x hx) (h y hy)

theorem wiserSelection_eq_argmin (hnd : rn.Nodup) (st : SelectState) (hdmed : bgp.flagCheck .deterministicMed = false)
    (hwiser : ∀ ri ∈ rn, WiserPath messages (mem ri)) :
    (bgpBestSelection bgp (some (wiserInfoCmp messages)) cfg mem rn st).newSelect =
      (usable mem rn).argmin fun ri => wiserKey bgp messages (mem ri) := by
  rw [bgpBestSelection_eq_knockout cfg (fun _ => rfl) hnd st hdmed]
  exact knockout_wiser fun ri hri => hwiser ri (mem_usable.1 hri).1

/-- Without deterministic-med the path selected is usable and no usable path is better; no path is
selected only if none is usable. -/
theorem wiserSelection_best (hnd : rn.Nodup) (st : SelectState) (hdmed : bgp.flagCheck .deterministicMed = false)
    (hwiser : ∀ ri ∈ rn, WiserPath messages (mem ri)) :
    (∀ sel, (bgpBestSelection bgp (some (wiserInfoCmp messages)) cfg mem rn st).newSelect = some sel →
      sel ∈ rn ∧ (mem sel).holddown = false ∧
        ∀ ri ∈ rn, (mem ri).holddown = false → ¬ WiserBetter bgp messages (mem ri) (mem sel)) ∧
    ((bgpBestSelection bgp (some (wiserInfoCmp messages)) cfg mem rn st).newSelect = none ↔
      ∀ ri ∈ rn, (mem ri).holddown = true) := by
  rw [wiserSelection_eq_argmin cfg hnd st hdmed hwiser]
  constructor
  · intro sel hsel
    obtain ⟨hmem, husable⟩ := mem_usable.1 (argmin_mem hsel)
    refine ⟨hmem, husable, fun ri hri hhold hbet => ?_⟩
    exact (wiserBetter_iff.1 hbet).not_ge (wiserKey_le_of_argmin hsel (mem_usable.2 ⟨hri, hhold⟩))
  · rw [argmin_eq_none, eq_nil_iff_forall_not_mem]
    apply forall_congr'
    intro ri
    rw [mem_usable]
    simp

/-- Two paths, of which the second is cheaper. -/
theorem wiserSelection_best_two_paths : (samplePath [] 2).holddown = false ∧
    ∀ ri ∈ [1, 2], (samplePath [] ri).holddown = false →
      ¬ WiserBetter {} (sampleMessages fun addr => if addr = 1 then 9 else 5) (samplePath [] ri) (samplePath [] 2) :=
  ((wiserSelection_best {} (by decide) .fresh rfl fun _ _ => ⟨rfl, rfl⟩).1 2 (by decide)).2

end Selection

/-! ## Selection with deterministic-med -/

/-- The instance with deterministic-med switched on or off. -/
def Bgp.withDeterministicMed (bgp : Bgp) (on : Bool) : Bgp :=
  { bgp with flagCheck := Function.update bgp.flagCheck .deterministicMed on }

@[simp] theorem withDeterministicMed_flagCheck (bgp : Bgp) (on : Bool) :
    (bgp.withDeterministicMed on).flagCheck .deterministicMed = on := by
  simp [Bgp.withDeterministicMed]

theorem withDeterministicMed_dmedBeats (bgp : Bgp) (on : Bool) :
    dmedBeats (bgp.withDeterministicMed on) = dmedBeats bgp := rfl

section DeterministicMed
variable {bgp : Bgp} {messages : Messages} (cfg : BgpMaxpathsCfg) {mem : InfoPtr → BgpInfo} {rn : List InfoPtr}

/-- The winners of the groups, in the order of the list. -/
def dmedWinners (bgp : Bgp) (mem : InfoPtr → BgpInfo) (rn : List InfoPtr) : List InfoPtr :=
  rn.filter (· ∈ groupHolders (dmedRel mem) (dmedBeats bgp mem) rn)

theorem mem_dmedWinners {ri : InfoPtr} :
    ri ∈ dmedWinners bgp mem rn ↔ ri ∈ groupHolders (dmedRel mem) (dmedBeats bgp mem) rn := by
  rw [dmedWinners, mem_filter, decide_eq_true_iff, and_iff_right_iff_imp]
  exact mem_of_mem_groupHolders

theorem dmedWinners_ne_nil (hne : rn ≠ []) : dmedWinners bgp mem rn ≠ [] := by
  obtain ⟨ri, hri⟩ := exists_mem_of_ne_nil rn hne
  obtain ⟨g, hg, hrig⟩ := exists_group hri
  cases hk : knockout (dmedBeats bgp mem) g with
  | none =>
    rw [knockout_eq_none_iff] at hk
    rw [hk] at hrig
    cases hrig
  | some w => exact ne_nil_of_mem (mem_dmedWinners.2 (mem_groupHolders.2 ⟨g, hg, hk⟩))

theorem wiserSelection_eq_argmin_winners (hnd : rn.Nodup) {st : SelectState} (hclr : st.Clear rn)
    (husable : ∀ ri ∈ rn, (mem ri).holddown = false) (hwiser : ∀ ri ∈ rn, WiserPath messages (mem ri)) :
    (bgpBestSelection (bgp.withDeterministicMed true) (some (wiserInfoCmp messages)) cfg mem rn st).newSelect =
      (dmedWinners bgp mem rn).argmin fun ri => wiserKey bgp messages (mem ri) := by
  rw [bgpBestSelection_eq_twoRounds cfg (fun _ => rfl) hnd hclr (by simp), usable_eq_self husable, twoRounds,
    withDeterministicMed_dmedBeats, knockout_wiser fun ri hri => hwiser ri (mem_of_mem_filter hri)]
  rfl

/-- Deterministic-med does not make the path selected dearer: switched on or off, a path of the least
cost is selected. -/
def DmedKeepsCost (bgp : Bgp) (messages : Messages) (cfg : BgpMaxpathsCfg) (mem : InfoPtr → BgpInfo)
    (rn : List InfoPtr) (st : SelectState) : Prop :=
  ∃ selOn selOff,
    (bgpBestSelection (bgp.withDeterministicMed true) (some (wiserInfoCmp messages)) cfg mem rn st).newSelect =
      some selOn ∧
    (bgpBestSelection (bgp.withDeterministicMed false) (some (wiserInfoCmp messages)) cfg mem rn st).newSelect =
      some selOff ∧
    (mem selOn).pathCost messages = (mem selOff).pathCost messages ∧
    ∀ ri ∈ rn, (mem selOff).pathCost messages ≤ (mem ri).pathCost messages

/-- Paths that differ neither in weight nor in local preference. -/
def SamePreference (bgp : Bgp) (mem : InfoPtr → BgpInfo) (rn : List InfoPtr) : Prop :=
  ∀ x ∈ rn, ∀ y ∈ rn, (mem x).weight = (mem y).weight ∧ (mem x).localPref bgp = (mem y).localPref bgp

theorem SamePreference.wiserKey_le_iff (h : SamePreference bgp mem rn) {x y : InfoPtr} (hx : x ∈ rn) (hy : y ∈ rn) :
    wiserKey bgp messages (mem x) ≤ wiserKey bgp messages (mem y) ↔
      (mem x).pathCost messages ≤ (mem y).pathCost messages := by
  obtain ⟨hw, hp⟩ := h x hx y hy
  simp [wiserKey, Prod.Lex.toLex_le_toLex, hw, hp, UInt32.le_iff_toNat_le]

/-- The least cost is kept when one of the cheapest paths wins its group by the standard comparison,
and only then. -/
theorem dmedKeepsCost_iff (hnd : rn.Nodup) (hne : rn ≠ []) {st : SelectState} (hclear : st.Clear rn)
    (husable : ∀ ri ∈ rn, (mem ri).holddown = false) (hwiser : ∀ ri ∈ rn, WiserPath messages (mem ri))
    (hsame : SamePreference bgp mem rn) : DmedKeepsCost bgp messages cfg mem rn st ↔
      ∃ best ∈ groupHolders (dmedRel mem) (dmedBeats bgp mem) rn,
        ∀ ri ∈ rn, (mem best).pathCost messages ≤ (mem ri).pathCost messages := by
  have hwin : ∀ ri ∈ dmedWinners bgp mem rn, ri ∈ rn := fun ri => mem_of_mem_filter
  have hoff := @wiserSelection_eq_argmin (bgp.withDeterministicMed false) messages cfg mem rn hnd st (by simp) hwiser
  unfold DmedKeepsCost
  rw [hoff, usable_eq_self husable, wiserSelection_eq_argmin_winners cfg hnd hclear husable hwiser]
  constructor
  · rintro ⟨selOn, selOff, hon, -, hcost, hmin⟩
    refine ⟨selOn, mem_dmedWinners.1 (argmin_mem hon), fun ri hri => ?_⟩
    rw [hcost]
    exact hmin ri hri
  · rintro ⟨best, hbest, hmin⟩
    have hbestrn := mem_of_mem_groupHolders hbest
    obtain ⟨selOn, hon⟩ := exists_argmin_wiserKey bgp messages mem (dmedWinners_ne_nil hne)
    obtain ⟨selOff, hoff⟩ := exists_argmin_wiserKey bgp messages mem hne
    have hoffrn := argmin_mem hoff
    have honrn := hwin selOn (argmin_mem hon)
    have hofflow : ∀ ri ∈ rn, (mem selOff).pathCost messages ≤ (mem ri).pathCost messages := fun ri hri =>
      (hsame.wiserKey_le_iff hoffrn hri).1 (wiserKey_le_of_argmin hoff hri)
    refine ⟨selOn, selOff, hon, hoff, UInt32.le_antisymm ?_ (hofflow selOn honrn), hofflow⟩
    calc (mem selOn).pathCost messages ≤ (mem best).pathCost messages :=
          (hsame.wiserKey_le_iff honrn hbestrn).1 (wiserKey_le_of_argmin hon (mem_dmedWinners.2 hbest))
      _ ≤ (mem selOff).pathCost messages := hmin selOff hoffrn

/-- Two paths from two neighbours. -/
theorem dmedKeepsCost_two_neighbours :
    DmedKeepsCost {} (sampleMessages fun addr => if addr = 1 then 9 else 5) {} (samplePath []) [1, 2] .fresh := by
  refine (dmedKeepsCost_iff {} (by decide) (by decide) (fresh_clear _) (by decide)
    (fun _ _ => ⟨rfl, rfl⟩) fun _ _ _ _ => ⟨rfl, rfl⟩).2 ⟨2, ?_, by decide⟩
  have hrel : dmedRel (samplePath []) 1 2 = false := by decide
  simp [groupHolders, leaderGroups, ungrouped, hrel, knockout]

/-- Two paths from one neighbour: the first has the shorter AS path, the second the lower cost. -/
theorem not_dmedKeepsCost_shorter_path : ∃ mem : InfoPtr → BgpInfo, ∃ messages : Messages,
    (∀ ri ∈ [1, 2], (mem ri).holddown = false ∧ WiserPath messages (mem ri)) ∧ SamePreference {} mem [1, 2] ∧
      ¬ DmedKeepsCost {} messages {} mem [1, 2] .fresh := by
  let mem : InfoPtr → BgpInfo := fun ri =>
    samplePath [assegmentWith .asSequence (if ri = 1 then [10] else [10, 20])] ri
  let messages := sampleMessages fun addr => if addr = 1 then 200 else 100
  refine ⟨mem, messages, fun _ _ => ⟨rfl, rfl, rfl⟩, fun _ _ _ _ => ⟨rfl, rfl⟩, ?_⟩
  rintro ⟨selOn, selOff, hon, hoff, hcost, -⟩
  have hon' : some 1 = some selOn := (show _ = some 1 from by decide).symm.trans hon
  have hoff' : some 2 = some selOff := (show _ = some 2 from by decide).symm.trans hoff
  cases hon'
  cases hoff'
  exact absurd hcost (by decide)

end DeterministicMed

end Tarpan.Bgpd
