/-
When the selection under Wiser does not depend on the order of the list of paths. The comparison of Wiser leaves paths
of equal cost to that order. Without deterministic-med one path must be better than all others; with it, where the
groups of the first pass are classes, one path must be the best of its group by the standard comparison and then better
than the best ones of the other groups.
-/
import Tarpan.Bgpd.Route.DeterministicMed

namespace Tarpan.Bgpd

open Base List Option SelectState

section Order
variable {bgp : Bgp} {messages : Messages} (cfg : BgpMaxpathsCfg) {mem : InfoPtr → BgpInfo} {rn : List InfoPtr}

/-- The place of a path in the order of the standard comparison between paths whose MEDs are compared. -/
def standardKey (bgp : Bgp) (bi : BgpInfo) : List ℕ ×ₗ ℕ ×ₗ List ℕ := fullKey (headKey bgp) (medKey bgp) tailKey bi

theorem dmedBeats_eq {x y : InfoPtr} (hrid : bgp.flagCheck .compareRouterId = true) (hx : StandardPath (mem x))
    (hy : StandardPath (mem y)) (hrel : dmedRel mem x y = true) :
    dmedBeats bgp mem x y = decide (standardKey bgp (mem x) ≤ standardKey bgp (mem y)) := by
  have hcomp : medComparable bgp (mem x) (mem y) = true := medComparable_of_sameNeighborAs hrel
  exact (bgpInfoCmp_eq_staged hrid hx hy).trans
    (stagedBeats_eq_decide hcomp ((medComparable_comm bgp (mem y) (mem x)).trans hcomp))

theorem selectsSame_iff_rounds {handler : Option ProtocolInfoCmp} {rel beats1 beats2 : InfoPtr → InfoPtr → Bool}
    (hsel : ∀ rn', rn'.Perm rn → ∀ st, st.Clear rn →
      (bgpBestSelection bgp handler cfg mem rn' st).newSelect = twoRounds rel beats1 beats2 rn') :
    SelectsSame bgp handler cfg mem rn ↔
      ∀ rn', rn'.Perm rn → twoRounds rel beats1 beats2 rn' = twoRounds rel beats1 beats2 rn := by
  constructor
  · intro hsame rn' hperm
    have := hsame rn' hperm _ _ (fresh_clear rn) (fresh_clear rn)
    rwa [hsel _ hperm _ (fresh_clear rn), hsel _ (.refl rn) _ (fresh_clear rn)] at this
  · intro hsame rn' hperm st st' hst hst'
    rw [hsel rn' hperm st' hst', hsel rn (.refl rn) st hst]
    exact hsame rn' hperm

section
variable (hnd : rn.Nodup) (husable : ∀ ri ∈ rn, (mem ri).holddown = false)
include hnd husable

theorem wiserSelection_eq_rounds (hdmed : bgp.flagCheck .deterministicMed = true) {rn' : List InfoPtr}
    (hperm : rn'.Perm rn) {st : SelectState} (hclr : st.Clear rn) :
    (bgpBestSelection bgp (some (wiserInfoCmp messages)) cfg mem rn' st).newSelect =
      twoRounds (dmedRel mem) (dmedBeats bgp mem) (bestBeats bgp (some (wiserInfoCmp messages)) mem) rn' := by
  rw [bgpBestSelection_eq_twoRounds cfg (fun _ => rfl) (hperm.nodup_iff.2 hnd)
    (fun ri hri => hclr ri (hperm.mem_iff.1 hri)) hdmed,
    usable_eq_self fun ri hri => husable ri (hperm.mem_iff.1 hri)]

variable (hwiser : ∀ ri ∈ rn, WiserPath messages (mem ri))
include hwiser

/-- Without deterministic-med the order does not matter when one path is better than all others, and
only then. -/
theorem wiserSelectsSame_off_iff (hne : rn ≠ []) (hdmed : bgp.flagCheck .deterministicMed = false) :
    SelectsSame bgp (some (wiserInfoCmp messages)) cfg mem rn ↔
      ∃ best ∈ rn, ∀ ri ∈ rn, ri ≠ best → WiserBetter bgp messages (mem best) (mem ri) := by
  let beats := bestBeats bgp (some (wiserInfoCmp messages)) mem
  have hsel : ∀ rn', rn'.Perm rn → ∀ st, st.Clear rn →
      (bgpBestSelection bgp (some (wiserInfoCmp messages)) cfg mem rn' st).newSelect =
        twoRounds (fun _ _ => false) beats beats rn' := by
    intro rn' hperm st _
    rw [twoRounds_unrelated, knockout_wiser fun ri hri => hwiser ri (hperm.mem_iff.1 hri),
      wiserSelection_eq_argmin cfg (hperm.nodup_iff.2 hnd) st hdmed fun ri hri => hwiser ri (hperm.mem_iff.1 hri),
      usable_eq_self fun ri hri => husable ri (hperm.mem_iff.1 hri)]
  have hrounds : ClassRounds (fun _ _ => false) beats beats (fun _ => 0)
    (fun ri => wiserKey bgp messages (mem ri)) rn := {
    symm := nofun
    trans := nofun
    first := nofun
    second := fun x hx y hy => bestBeats_wiser (hwiser x hx) (hwiser y hy) }
  rw [selectsSame_iff_rounds cfg hsel, hrounds.perm_iff hnd hne]
  constructor
  · rintro ⟨best, hwins⟩
    exact ⟨best, hwins.mem, fun ri hri hne => wiserBetter_iff.2 (hwins.second ri hri hne rfl nofun)⟩
  · rintro ⟨best, hbest, hbet⟩
    exact ⟨best, hbest, nofun, fun ri hri hne _ _ => wiserBetter_iff.1 (hbet ri hri hne)⟩

/-- With deterministic-med, where its groups are classes, the order does not matter when one path is the only best one
of its group and better than all that are best in theirs, and only then. -/
theorem wiserSelectsSame_classes_iff (hne : rn ≠ []) (hdmed : bgp.flagCheck .deterministicMed = true)
    (hrid : bgp.flagCheck .compareRouterId = true) (hsort : ∀ ri ∈ rn, (mem ri).peer.sort ≠ .internal)
    (htrans : ∀ x ∈ rn, ∀ y ∈ rn, ∀ z ∈ rn, dmedRel mem x y = true → dmedRel mem y z = true → dmedRel mem x z = true) :
    SelectsSame bgp (some (wiserInfoCmp messages)) cfg mem rn ↔
      ∃ best, WinsClasses (dmedRel mem) (fun ri => standardKey bgp (mem ri)) (fun ri => wiserKey bgp messages (mem ri))
        rn best := by
  have hstd : ∀ ri ∈ rn, StandardPath (mem ri) := fun ri hri => ⟨(hwiser ri hri).normal, hsort ri hri⟩
  have hrounds : ClassRounds (dmedRel mem) (dmedBeats bgp mem) (bestBeats bgp (some (wiserInfoCmp messages)) mem)
      (fun ri => standardKey bgp (mem ri)) (fun ri => wiserKey bgp messages (mem ri)) rn := {
    symm := fun x _ y _ h => (sameNeighborAs_comm (mem y) (mem x)).trans h
    trans := htrans
    first := fun x hx y hy => dmedBeats_eq hrid (hstd x hx) (hstd y hy)
    second := fun x hx y hy => bestBeats_wiser (hwiser x hx) (hwiser y hy) }
  rw [selectsSame_iff_rounds cfg fun rn' hperm st => wiserSelection_eq_rounds cfg hnd husable hdmed hperm]
  exact hrounds.perm_iff hnd hne

/-- With deterministic-med the order does not matter where one path is better than all others in the
order of Wiser and in the standard comparison. -/
theorem wiserSelectsSame_on (hdmed : bgp.flagCheck .deterministicMed = true)
    {best : InfoPtr} (hbest : best ∈ rn) (hbet : ∀ ri ∈ rn, ri ≠ best → WiserBetter bgp messages (mem best) (mem ri))
    (hstd : Dominates (dmedBeats bgp mem) best rn) : SelectsSame bgp (some (wiserInfoCmp messages)) cfg mem rn := by
  have hsel : ∀ rn', rn'.Perm rn →
      twoRounds (dmedRel mem) (dmedBeats bgp mem) (bestBeats bgp (some (wiserInfoCmp messages)) mem) rn' =
        some best := by
    intro rn' hperm
    refine twoRounds_eq (hperm.mem_iff.2 hbest) (fun g hg _ x hx => ?_) fun x hx hne => ?_
    · exact hstd x (hperm.mem_iff.1 (mem_of_mem_group hg hx))
    · have hxrn := hperm.mem_iff.1 (mem_of_mem_groupHolders hx)
      have hlt := wiserBetter_iff.1 (hbet x hxrn hne)
      rw [bestBeats_wiser (hwiser best hbest) (hwiser x hxrn), bestBeats_wiser (hwiser x hxrn) (hwiser best hbest)]
      exact ⟨decide_eq_true hlt, decide_eq_false hlt.not_gt⟩
  rw [selectsSame_iff_rounds cfg fun rn' hperm st => wiserSelection_eq_rounds cfg hnd husable hdmed hperm]
  intro rn' hperm
  rw [hsel rn' hperm, hsel rn (.refl rn)]

end

/-- When the selection under Wiser does not depend on the order of the list: without deterministic-med exactly when one
path is better than all others. With it, where the groups are classes, exactly when one path wins its group and then
beats the winners of the others; in general it suffices that one path is better than all others in both comparisons. -/
theorem wiserSelectsSame (hnd : rn.Nodup) (hne : rn ≠ []) (husable : ∀ ri ∈ rn, (mem ri).holddown = false)
    (hwiser : ∀ ri ∈ rn, WiserPath messages (mem ri)) : (bgp.flagCheck .deterministicMed = false →
      (SelectsSame bgp (some (wiserInfoCmp messages)) cfg mem rn ↔
        ∃ best ∈ rn, ∀ ri ∈ rn, ri ≠ best → WiserBetter bgp messages (mem best) (mem ri))) ∧
    (bgp.flagCheck .deterministicMed = true → bgp.flagCheck .compareRouterId = true →
      (∀ ri ∈ rn, (mem ri).peer.sort ≠ .internal) →
      (∀ x ∈ rn, ∀ y ∈ rn, ∀ z ∈ rn, dmedRel mem x y = true → dmedRel mem y z = true → dmedRel mem x z = true) →
      (SelectsSame bgp (some (wiserInfoCmp messages)) cfg mem rn ↔ ∃ best, WinsClasses (dmedRel mem)
        (fun ri => standardKey bgp (mem ri)) (fun ri => wiserKey bgp messages (mem ri)) rn best)) ∧
    (bgp.flagCheck .deterministicMed = true →
      (∃ best ∈ rn, (∀ ri ∈ rn, ri ≠ best → WiserBetter bgp messages (mem best) (mem ri)) ∧
        Dominates (dmedBeats bgp mem) best rn) →
      SelectsSame bgp (some (wiserInfoCmp messages)) cfg mem rn) := by
  refine ⟨wiserSelectsSame_off_iff cfg hnd husable hwiser hne,
    wiserSelectsSame_classes_iff cfg hnd husable hwiser hne, fun hdmed => ?_⟩
  rintro ⟨best, hbest, hbet, hstd⟩
  exact wiserSelectsSame_on cfg hnd husable hwiser hdmed hbest hbet hstd

/-- Two paths of different cost; and two of the same cost from one neighbour AS, with deterministic-med. -/
theorem wiserSelectsSame_two_paths : SelectsSame {}
    (some (wiserInfoCmp (sampleMessages fun addr => if addr = 1 then 9 else 5))) {} (samplePath []) [1, 2] ∧
    SelectsSame (dmedInstance fun _ => false) (some (wiserInfoCmp (sampleMessages fun _ => 5))) {}
      (samplePath [assegmentWith .asSequence [10]]) [1, 2] := by
  refine ⟨((wiserSelectsSame {} (by decide) (by decide) (by decide) fun _ _ => ⟨rfl, rfl⟩).1 rfl).2
    ⟨2, by decide, by decide⟩,
    ((wiserSelectsSame {} (by decide) (by decide) (by decide) fun _ _ => ⟨rfl, rfl⟩).2.1 rfl rfl (by decide) ?_).2
      ⟨1, by decide, ?_, ?_⟩⟩
  · intro _ _ _ _ _ _ _ _
    rfl
  · decide
  · intro ri _ _ hrel
    cases hrel

/-- Two paths of equal cost from two peers: the one that comes first is selected, whatever their
router ids. -/
theorem not_wiserSelectsSame_equal_costs : ∃ bgp : Bgp, ∃ mem : InfoPtr → BgpInfo, ∃ messages : Messages,
    bgp.flagCheck .compareRouterId = true ∧
    (∀ ri ∈ [1, 2], (mem ri).holddown = false ∧ WiserPath messages (mem ri) ∧ (mem ri).flags .selected = false) ∧
    ([1, 2].map fun ri => (mem ri).peer).Nodup ∧ ¬ SelectsSame bgp (some (wiserInfoCmp messages)) {} mem [1, 2] := by
  refine ⟨{ flagCheck := fun flag => flag == .compareRouterId }, samplePath [], sampleMessages fun _ => 5, rfl,
    fun _ _ => ⟨rfl, ⟨rfl, rfl⟩, rfl⟩, .of_map Peer.remoteId (by decide), fun hsame => ?_⟩
  have h := hsame [2, 1] (List.Perm.swap _ _ _) .fresh .fresh (fresh_clear _) (fresh_clear _)
  exact absurd h (by decide)

end Order

end Tarpan.Bgpd
