/-
Deterministic-med and the standard decision process. The process is a comparison in stages, in which
the MED is compared between some pairs of paths only. The first pass groups paths by the leftmost AS
of their AS paths or of their confederation paths; the selection does not depend on the order of the
list where those groups are classes and hold all the pairs whose MEDs are compared, or where all MEDs
are compared. In general they are not and do not.
-/
import Tarpan.Base.Staged
import Tarpan.Bgpd.Route.WiserSelection

namespace Tarpan.Bgpd

open Base Lib List

/-! ## The process in stages -/

def aspathLength (bgp : Bgp) (bi : BgpInfo) : Nat :=
  if bgp.flagCheck .aspathIgnore then 0
  else if bgp.flagCheck .aspathConfed then aspathCountHops bi.aspath + aspathCountConfeds bi.aspath
  else aspathCountHops bi.aspath

/-- The numbers that steps 1, 2, 4 and 5 compare, the preferred one lower. -/
def headKey (bgp : Bgp) (bi : BgpInfo) : List Nat :=
  [2 ^ 32 - bi.weight.toNat, 2 ^ 32 - (bi.localPref bgp).toNat, aspathLength bgp bi, bi.attr.origin.toNat]

/-- The number that step 6 compares. -/
def medKey (bgp : Bgp) (bi : BgpInfo) : Nat := (bgpMedValue bi.attr bgp).toNat

/-- The numbers that steps 7, 8 and 11 to 13 compare. -/
def tailKey (bi : BgpInfo) : List Nat :=
  [if bi.peer.sort = .ebgp then 0 else 1, bi.metric.toNat, bi.routerId.toNat, bi.clusterLength,
    bi.peer.suRemote.family, bi.peer.suRemote.number]

theorem preferLower_eq_prefer (a b : Nat) : preferLower a b = prefer a b := rfl

theorem preferHigher_eq_prefer {a b : Nat} (ha : a < 2 ^ 32) (hb : b < 2 ^ 32) :
    preferHigher a b = prefer (2 ^ 32 - a) (2 ^ 32 - b) := by
  rcases lt_trichotomy a b with h | rfl | h
  · rw [preferHigher, preferLower_of_gt h, prefer_of_gt (by omega)]
  · rw [preferHigher, preferLower_self, prefer_self]
  · rw [preferHigher, preferLower_of_lt h, prefer_of_lt (by omega)]

variable (bgp : Bgp)

theorem aspathLengthCheck_eq (x y : BgpInfo) :
    aspathLengthCheck bgp x y = prefer (aspathLength bgp x) (aspathLength bgp y) := by
  unfold aspathLengthCheck aspathLength
  split
  · simp
  · split <;> rfl

variable {x y : BgpInfo}

theorem peerTypeCheck_eq (hx : x.peer.sort ≠ .internal) (hy : y.peer.sort ≠ .internal) :
    peerTypeCheck x y = prefer (if x.peer.sort = .ebgp then 0 else 1) (if y.peer.sort = .ebgp then 0 else 1) := by
  unfold peerTypeCheck
  cases hxs : x.peer.sort <;> cases hys : y.peer.sort <;> simp_all [prefer]

theorem neighborAddressCheck_eq (x y : BgpInfo) : neighborAddressCheck x y =
    (prefer x.peer.suRemote.family y.peer.suRemote.family).getD
      ((prefer x.peer.suRemote.number y.peer.suRemote.number).getD true) := by
  unfold neighborAddressCheck
  rw [sockunionCmp_eq]
  rcases lt_trichotomy x.peer.suRemote.family y.peer.suRemote.family with h | h | h
  · rw [if_neg h.not_gt, if_pos h, prefer_of_lt h]
    rfl
  · rw [if_neg h.not_gt, if_neg h.not_lt, h, prefer_self]
    rcases lt_trichotomy x.peer.suRemote.number y.peer.suRemote.number with h | h | h
    · rw [compare_lt_iff_lt.2 h, prefer_of_lt h]
      rfl
    · rw [compare_eq_iff_eq.2 h, h, prefer_self]
      rfl
    · rw [compare_gt_iff_gt.2 h, prefer_of_gt h]
      rfl
  · rw [if_pos h, prefer_of_gt h]
    rfl

theorem bgpInfoCmp_fst (x y : BgpInfo) : (bgpInfoCmp bgp (some x) (some y)).1 =
    (localChecks bgp x y).getD ((pathChecks bgp x y).getD
      ((prefer x.metric.toNat y.metric.toNat).getD (tieChecks bgp x y))) := by
  have hstd : (standardChecks bgp x y).1 = (pathChecks bgp x y).getD
      ((prefer x.metric.toNat y.metric.toNat).getD (tieChecks bgp x y)) := by
    unfold standardChecks
    cases pathChecks bgp x y with
    | some ret => rfl
    | none =>
      rcases lt_trichotomy x.metric.toNat y.metric.toNat with h | h | h
      · rw [prefer_of_lt h, if_neg fun he => h.ne (congrArg _ he)]
        exact decide_eq_true (UInt32.lt_iff_toNat_lt.2 h)
      · rw [h, prefer_self, if_pos (UInt32.toNat_inj.1 h)]
        rfl
      · rw [prefer_of_gt h, if_neg fun he => h.ne' (congrArg _ he)]
        exact decide_eq_false fun hlt => h.not_gt (UInt32.lt_iff_toNat_lt.1 hlt)
  rw [← hstd, bgpInfoCmp]
  cases localChecks bgp x y <;> rfl

/-- A path of the kind the process compares in stages. -/
structure StandardPath (bi : BgpInfo) : Prop where
  normal : bi.subType = .normal
  external : bi.peer.sort ≠ .internal

theorem bgpInfoCmp_eq_staged {bgp : Bgp} (hrid : bgp.flagCheck .compareRouterId = true)
    (hx : StandardPath x) (hy : StandardPath y) : (bgpInfoCmp bgp (some x) (some y)).1 =
      stagedBeats (headKey bgp) (medKey bgp) tailKey (medComparable bgp) x y := by
  have hrt : localRouteCheck x y = none := by simp [localRouteCheck, hx.normal, hy.normal]
  have hold : oldestCheck bgp x y = none := by simp [oldestCheck, hrid]
  rw [bgpInfoCmp_fst]
  unfold stagedBeats headKey tailKey localChecks pathChecks tieChecks medCheck medKey
  rw [hrt, hold, preferHigher_eq_prefer x.weight.toNat_lt y.weight.toNat_lt,
    preferHigher_eq_prefer (x.localPref bgp).toNat_lt (y.localPref bgp).toNat_lt, aspathLengthCheck_eq,
    peerTypeCheck_eq hx.external hy.external, neighborAddressCheck_eq]
  simp [preferLower_eq_prefer, prefer_cons]

/-! ## The groups -/

theorem aspathCmpLeft_comm (p q : Aspath) : aspathCmpLeft p q = aspathCmpLeft q p := by
  unfold aspathCmpLeft
  generalize p.dropWhile (·.type.isConfed) = p'
  generalize q.dropWhile (·.type.isConfed) = q'
  cases p' <;> cases q' <;> simp [Bool.and_comm, eq_comm]

theorem aspathCmpLeftConfed_comm (p q : Aspath) : aspathCmpLeftConfed p q = aspathCmpLeftConfed q p := by
  unfold aspathCmpLeftConfed
  cases p <;> cases q <;> simp [Bool.and_comm, eq_comm]

theorem sameNeighborAs_comm (x y : BgpInfo) : sameNeighborAs x y = sameNeighborAs y x := by
  rw [sameNeighborAs, aspathCmpLeft_comm, aspathCmpLeftConfed_comm, sameNeighborAs]

theorem medComparable_comm (x y : BgpInfo) : medComparable bgp x y = medComparable bgp y x := by
  unfold medComparable
  rw [aspathCmpLeft_comm, aspathCmpLeftConfed_comm]
  simp [Bool.and_comm, Bool.and_assoc]

theorem medComparable_of_sameNeighborAs {bgp : Bgp} (h : sameNeighborAs x y = true) : medComparable bgp x y = true := by
  rcases Bool.or_eq_true_iff.1 h with h | h <;> simp [medComparable, h]

/-! ## The order of the list -/

section Order
variable {bgp : Bgp} (cfg : BgpMaxpathsCfg) {mem : InfoPtr → BgpInfo} {rn : List InfoPtr}

/-- The numbers of steps 1 to 5 of the path at a pointer. -/
def infoHead (bgp : Bgp) (mem : InfoPtr → BgpInfo) (ri : InfoPtr) : List Nat := headKey bgp (mem ri)

/-- The process compares the MEDs of the two paths. -/
def medPair (bgp : Bgp) (mem : InfoPtr → BgpInfo) (ri1 ri2 : InfoPtr) : Bool := medComparable bgp (mem ri1) (mem ri2)

theorem stagedList_paths (haddr : ∀ x ∈ rn, ∀ y ∈ rn, (mem x).peer.suRemote = (mem y).peer.suRemote → x = y) :
    StagedList (fun ri => tailKey (mem ri)) (medPair bgp mem) (dmedRel mem) rn where
  comp_symm x _ y _ := medComparable_comm bgp (mem x) (mem y)
  rel_symm x _ y _ h := (sameNeighborAs_comm (mem y) (mem x)).trans h
  comp_of_rel _ _ _ _ h := medComparable_of_sameNeighborAs h
  tail_inj x hx y hy h := by
    simp only [tailKey, List.cons.injEq] at h
    exact haddr x hx y hy (Sockunion.ext_number h.2.2.2.2.1 h.2.2.2.2.2.1)

/-- With deterministic-med and the comparison of router ids the selection does not depend on the
order of the list, where the MEDs of all paths that are best up to step 5 are compared, or where the
groups of the first pass are classes and hold all pairs of such paths whose MEDs are compared. -/
theorem dmedSelectsSame (hnd : rn.Nodup) (hdmed : bgp.flagCheck .deterministicMed = true)
    (hrid : bgp.flagCheck .compareRouterId = true) (husable : ∀ ri ∈ rn, (mem ri).holddown = false)
    (hstd : ∀ ri ∈ rn, StandardPath (mem ri))
    (haddr : ∀ x ∈ rn, ∀ y ∈ rn, (mem x).peer.suRemote = (mem y).peer.suRemote → x = y)
    (hmed : CompThroughout (infoHead bgp mem) (medPair bgp mem) rn ∨
      CompInGroups (infoHead bgp mem) (medPair bgp mem) (dmedRel mem) rn) : SelectsSame bgp none cfg mem rn := by
  let beats := stagedBeats (infoHead bgp mem) (fun ri => medKey bgp (mem ri)) (fun ri => tailKey (mem ri))
    (medPair bgp mem)
  have hsel : ∀ rn', rn'.Perm rn → ∀ st, st.Clear rn →
      (bgpBestSelection bgp none cfg mem rn' st).newSelect = twoRounds (dmedRel mem) beats beats rn' := by
    intro rn' hperm st hclr
    have hbeats : ∀ x ∈ rn', ∀ y ∈ rn', dmedBeats bgp mem x y = beats x y := fun x hx y hy =>
      bgpInfoCmp_eq_staged hrid (hstd x (hperm.mem_iff.1 hx)) (hstd y (hperm.mem_iff.1 hy))
    rw [bgpBestSelection_eq_twoRounds cfg (fun _ => rfl) (hperm.nodup_iff.2 hnd)
      (fun ri hri => hclr ri (hperm.mem_iff.1 hri)) hdmed,
      usable_eq_self fun ri hri => husable ri (hperm.mem_iff.1 hri)]
    exact twoRounds_congr hbeats hbeats
  intro rn' hperm st st' hst hst'
  rw [hsel rn' hperm st' hst', hsel rn (.refl rn) st hst]
  by_cases hne : rn = []
  · rw [hne] at hperm ⊢
    rw [List.perm_nil.1 hperm]
  · obtain ⟨w, hw⟩ := exists_choice (stagedList_paths haddr) (fun ri => medKey bgp (mem ri)) hne hmed
    exact (hw rn' hperm).trans (hw rn (.refl rn)).symm

/-- An instance with deterministic-med, the comparison of router ids and the given other flags. -/
def dmedInstance (flags : BgpFlag → Bool) : Bgp where
  flagCheck flag := flag == .deterministicMed || flag == .compareRouterId || flags flag

/-- Two internal paths, whose MEDs are compared. -/
theorem dmedSelectsSame_two_internal : SelectsSame (dmedInstance fun _ => false) none {} (samplePath []) [1, 2] := by
  refine dmedSelectsSame {} (by decide) rfl rfl (by decide) (fun _ _ => ⟨rfl, ?_⟩) (by decide) (.inl ?_)
  · exact PeerSort.noConfusion
  · intro x y _ _ _
    rfl

/-- A path from an internal peer with a MED and a metric. -/
def sampleInternal (aspath : Aspath) (med metric : UInt32) (n : Nat) : BgpInfo :=
  { samplePath aspath n with
    peer := { as := 1, sort := .ibgp, remoteId := UInt32.ofNat n, suRemote := .sin (UInt32.ofNat n) }
    attr := { aspath := some aspath, flag := BgpAttr.flagBit .multiExitDisc, med := med }
    igpmetric := some metric }

/-- Two routes of the local AS and one from outside. The MED decides between the first two, the
metric between each of them and the third: each path beats another one, and the path selected
depends on which is met first. -/
theorem not_dmedSelectsSame_internal_routes : ∃ bgp : Bgp, ∃ mem : InfoPtr → BgpInfo,
    bgp.flagCheck .deterministicMed = true ∧ bgp.flagCheck .compareRouterId = true ∧
    (∀ ri ∈ [1, 2, 3], (mem ri).holddown = false ∧ StandardPath (mem ri)) ∧
    ([1, 2, 3].map fun ri => (mem ri).peer.suRemote).Nodup ∧ ¬ SelectsSame bgp none {} mem [1, 2, 3] := by
  let mem : InfoPtr → BgpInfo := fun ri =>
    if ri = 1 then sampleInternal [] 10 30 1
    else if ri = 2 then sampleInternal [] 20 10 2
    else sampleInternal [assegmentWith .asSequence [10]] 0 20 3
  refine ⟨dmedInstance (· == .aspathIgnore), mem, rfl, rfl, ?_, by decide, fun hsame => ?_⟩
  · intro ri hri
    simp only [mem_cons, not_mem_nil, or_false] at hri
    rcases hri with rfl | rfl | rfl <;> exact ⟨rfl, rfl, PeerSort.noConfusion⟩
  · have h := hsame [2, 3, 1] (by decide) .fresh .fresh (SelectState.fresh_clear _) (SelectState.fresh_clear _)
    exact absurd h (by decide)

end Order

end Tarpan.Bgpd
