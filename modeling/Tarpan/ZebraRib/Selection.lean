/-
The loop of `rib_process`: it fails exactly if two entries are selected, unlinks the removed entries but a selected one,
checks the next hops of the others, and finds the last of the best entries.
-/
import Tarpan.Base.LastMin
import Tarpan.ZebraRib.Node
import Mathlib.Data.Prod.Lex

namespace Tarpan.ZebraRib

open Base List Function

variable {w : World} {n : Node} {s : Scan} {a b : Nat} {done rest : List Nat} {rib : Rib} {set : Bool}

/-! ## The order of the entries -/

/-- Connected routes come first, by their metric; the others follow by distance and metric. -/
def Rib.rank (rib : Rib) : Nat ×ₗ Nat ×ₗ Nat :=
  if rib.type = zebraRouteConnect then toLex (0, toLex (0, rib.metric.toNat))
  else toLex (1, toLex (rib.distance.toNat, rib.metric.toNat))

theorem rank_connect (h : rib.type = zebraRouteConnect) : rib.rank = toLex (0, toLex (0, rib.metric.toNat)) := if_pos h

theorem rank_other (h : rib.type ≠ zebraRouteConnect) :
    rib.rank = toLex (1, toLex (rib.distance.toNat, rib.metric.toNat)) :=
  if_neg h

theorem preferred_eq (n : Node) (select a : Nat) :
    preferred n select a = laterMin (fun a => (n.rib a).rank) select a := by
  rw [preferred, laterMin]
  by_cases hnew : (n.rib a).type = zebraRouteConnect
  · rw [if_pos hnew, rank_connect hnew]
    by_cases hold : (n.rib select).type = zebraRouteConnect
    · rw [rank_connect hold]
      refine if_congr ?_ rfl rfl
      simp [Prod.Lex.le_iff, hold, UInt32.le_iff_toNat_le]
    · rw [rank_other hold, if_pos (.inl hold), if_pos (by simp [Prod.Lex.le_iff])]
  · rw [if_neg hnew, rank_other hnew]
    by_cases hold : (n.rib select).type = zebraRouteConnect
    · rw [if_pos hold, rank_connect hold, if_neg (by simp [Prod.Lex.le_iff])]
    rw [if_neg hold, rank_other hold]
    simp only [Prod.Lex.le_iff, ofLex_toLex, lt_irrefl, true_and, false_or]
    by_cases h1 : (n.rib select).distance < (n.rib a).distance
    · have hlt := UInt8.lt_iff_toNat_lt.1 h1
      rw [if_pos h1, if_neg (by omega)]
    rw [if_neg h1]
    by_cases h2 : (n.rib a).distance < (n.rib select).distance
    · rw [if_pos h2, if_pos (.inl (UInt8.lt_iff_toNat_lt.1 h2))]
    rw [if_neg h2]
    have heq := le_antisymm (UInt8.le_iff_toNat_le.1 (UInt8.not_lt.1 h1)) (UInt8.le_iff_toNat_le.1 (UInt8.not_lt.1 h2))
    refine if_congr ?_ rfl rfl
    simp [heq, UInt32.le_iff_toNat_le]

/-! ## The loop -/

/-- An entry after its next hops were checked. -/
def checked (w : World) (n : Node) (a : Nat) : Rib := nexthopActiveUpdate w n.id (n.rib a) false

/-- An entry that can be selected: it is not removed, a next hop is active, and its distance is not infinite. -/
def Eligible (w : World) (n : Node) (a : Nat) : Prop :=
  (n.rib a).removed = false ∧ (checked w n a).nexthopActiveNum ≠ 0 ∧ (n.rib a).distance ≠ distanceInfinity

instance Eligible.decidable (w : World) (n : Node) (a : Nat) : Decidable (Eligible w n a) :=
  inferInstanceAs (Decidable (_ ∧ _ ∧ _))

/-- The entry is to be unlinked by the loop. -/
def dead (n : Node) (a : Nat) : Bool := (n.rib a).removed && !(n.rib a).flags.selected

/-- The node after the loop has gone through some entries. -/
def scannedNode (w : World) (n : Node) (done : List Nat) : Node :=
  { n with
    routes := n.routes.filter fun a => !(decide (a ∈ done) && dead n a)
    rib := fun a => if a ∈ done ∧ (n.rib a).removed = false then checked w n a else n.rib a }

/-- The variables of the loop after it has gone through some entries. -/
structure Scanned (w : World) (n : Node) (done : List Nat) (s : Scan) : Prop where
  node : s.node = scannedNode w n done
  fib : s.fib = done.find? fun a => (n.rib a).flags.selected
  del : s.del = s.fib.filter fun a => (n.rib a).removed
  select : s.select = lastMin (fun a => (n.rib a).rank) (done.filter (Eligible w n))

theorem scannedNode_removed (hrts : n.routes.Nodup) (hdead : dead n a) :
    ribUnlink (scannedNode w n done) a = scannedNode w n (done ++ [a]) := by
  have hrem := (Bool.and_eq_true_iff.1 hdead).1
  rw [scannedNode, scannedNode, ribUnlink]
  congr 1
  · rw [Nodup.erase_eq_filter (hrts.filter _), filter_filter]
    refine filter_congr fun b _ => ?_
    by_cases hba : b = a
    · simp [hba, hdead]
    · simp [hba]
  · funext b
    by_cases hba : b = a
    · simp [hba, hrem]
    · simp [hba]

theorem scannedNode_kept (hrem : (n.rib a).removed = true) (hdead : dead n a = false) :
    scannedNode w n done = scannedNode w n (done ++ [a]) := by
  rw [scannedNode]
  congr 1
  · refine filter_congr fun b _ => ?_
    by_cases hba : b = a
    · simp [hba, hdead]
    · simp [hba]
  · funext b
    by_cases hba : b = a
    · simp [hba, hrem]
    · simp [hba]

theorem scannedNode_rib (hdone : a ∉ done) : (scannedNode w n done).rib a = n.rib a := if_neg fun h => hdone h.1

theorem scannedNode_checked (hdone : a ∉ done) (hrem : (n.rib a).removed = false) :
    activeUpdate w (scannedNode w n done) a false = scannedNode w n (done ++ [a]) := by
  have hdead : dead n a = false := by rw [dead, hrem, Bool.false_and]
  rw [activeUpdate, setRib, scannedNode_rib hdone, scannedNode]
  congr 1
  · refine filter_congr fun b _ => ?_
    by_cases hba : b = a
    · simp [hba, hdead]
    · simp [hba]
  · funext b
    by_cases hba : b = a
    · rw [hba, update_self, if_pos ⟨by simp, hrem⟩]
      rfl
    · simp [hba]

theorem scannedNode_rank (w : World) (n : Node) (done : List Nat) (a : Nat) :
    ((scannedNode w n done).rib a).rank = (n.rib a).rank := by
  change Rib.rank (if _ then _ else _) = _
  split <;> rfl

/-- One turn of the loop: it fails exactly if the entry is selected and one before it was. -/
theorem scanRib_spec (hrts : n.routes.Nodup) (hs : Scanned w n done s) (ha : a ∉ done) :
    (scanRib w s a = none ∧ (n.rib a).flags.selected ∧ ∃ b ∈ done, (n.rib b).flags.selected) ∨
    (∃ s', scanRib w s a = some s' ∧ Scanned w n (done ++ [a]) s') ∧
      ((n.rib a).flags.selected → ∀ b ∈ done, (n.rib b).flags.selected = false) := by
  have hrib : s.node.rib a = n.rib a := by rw [hs.node, scannedNode_rib ha]
  by_cases hfail : (n.rib a).flags.selected ∧ s.fib.isSome
  · left
    obtain ⟨b, hb⟩ := Option.isSome_iff_exists.1 hfail.2
    rw [hs.fib] at hb
    have hselected := find?_some hb
    refine ⟨?_, hfail.1, b, mem_of_find?_eq_some hb, hselected⟩
    rw [scanRib]
    rw [hrib, if_pos hfail]
  right
  have hfirst : (n.rib a).flags.selected → s.fib = none := fun hselected => by simpa [hselected] using hfail
  -- the selected entry so far
  have hfib : (if (n.rib a).flags.selected then some a else s.fib) =
      (done ++ [a]).find? fun a => (n.rib a).flags.selected := by
    rw [find?_append, ← hs.fib]
    split_ifs with hselected
    · rw [hfirst hselected, Option.none_or, find?_singleton, if_pos hselected]
    · rw [find?_singleton, if_neg hselected, Option.or_none]
  have hone : (n.rib a).flags.selected → ∀ b ∈ done, (n.rib b).flags.selected = false := by
    intro hselected b hb
    have hnone := hfirst hselected
    rw [hs.fib] at hnone
    simpa using find?_eq_none.1 hnone b hb
  refine ⟨?_, hone⟩
  rw [scanRib]
  dsimp only
  rw [hrib, if_neg hfail, hfib]
  by_cases hrem : (n.rib a).removed
  · have hnot : ¬Eligible w n a := fun h => by rw [h.1] at hrem; cases hrem
    have hsel : s.select = lastMin (fun a => (n.rib a).rank) ((done ++ [a]).filter (Eligible w n)) := by
      rw [filter_append, filter_cons_of_neg (by simpa using hnot), filter_nil, append_nil, hs.select]
    rw [if_pos hrem, ← hfib]
    by_cases hselected : (n.rib a).flags.selected
    · have hdead : dead n a = false := by rw [dead, hselected, Bool.not_true, Bool.and_false]
      rw [if_pos hselected, if_neg (by simp)]
      refine ⟨_, rfl, ?_, ?_, ?_, hsel⟩
      · exact hs.node.trans (scannedNode_kept hrem hdead)
      · rw [← hfib, if_pos hselected]
      · exact (if_pos hrem).symm
    · have hdead : dead n a = true := by simp [dead, hrem, hselected]
      have hne : some a ≠ s.fib := by
        intro heq
        rw [hs.fib] at heq
        exact ha (mem_of_find?_eq_some heq.symm)
      rw [if_neg hselected, if_pos hne]
      refine ⟨_, rfl, ?_, ?_, hs.del, hsel⟩
      · rw [hs.node, scannedNode_removed hrts hdead]
      · rw [← hfib, if_neg hselected]
  · have hrem : (n.rib a).removed = false := by simpa using hrem
    have hnode : activeUpdate w s.node a false = scannedNode w n (done ++ [a]) := by
      rw [hs.node, scannedNode_checked ha hrem]
    have hchk : (activeUpdate w s.node a false).rib a = checked w n a := by
      rw [hnode]
      exact if_pos ⟨by simp, hrem⟩
    have hdel : s.del = ((done ++ [a]).find? fun a => (n.rib a).flags.selected).filter fun a => (n.rib a).removed := by
      rw [← hfib]
      split_ifs with hselected
      · rw [hs.del, hfirst hselected, Option.filter_some, hrem]
        rfl
      · rw [hs.del]
    rw [if_neg (by simp [hrem]), hchk]
    by_cases helig : Eligible w n a
    · rw [if_neg (by rintro (h | h); exacts [helig.2.1 h, helig.2.2 h])]
      refine ⟨_, rfl, hnode, rfl, hdel, ?_⟩
      rw [filter_append, filter_cons_of_pos (by simpa using helig), filter_nil, lastMin_concat, ← hs.select, hnode]
      cases s.select with
      | none => rfl
      | some b =>
        change some (preferred (scannedNode w n (done ++ [a])) b a) = some (laterMin (fun a => (n.rib a).rank) b a)
        rw [preferred_eq, laterMin, laterMin, scannedNode_rank, scannedNode_rank]
    · rw [if_pos (by rw [Eligible] at helig; tauto)]
      refine ⟨_, rfl, hnode, rfl, hdel, ?_⟩
      rw [filter_append, filter_cons_of_neg (by simpa using helig), filter_nil, append_nil, hs.select]

def OneSelected (n : Node) (l : List Nat) : Prop :=
  ∀ a ∈ l, ∀ b ∈ l, (n.rib a).flags.selected → (n.rib b).flags.selected → a = b

theorem scan_spec (hrts : n.routes.Nodup) : ∀ {rest done : List Nat} {s : Scan}, (done ++ rest).Nodup →
    Scanned w n done s → OneSelected n done → (rest.foldlM (scanRib w) s = none ∧ ¬OneSelected n (done ++ rest)) ∨
    (∃ s', rest.foldlM (scanRib w) s = some s' ∧ Scanned w n (done ++ rest) s') ∧ OneSelected n (done ++ rest)
  | [], done, s, _, hs, hone => by
    rw [append_nil]
    exact .inr ⟨⟨s, rfl, hs⟩, hone⟩
  | a :: rest, done, s, hnd, hs, hone => by
    have ha : a ∉ done := fun hmem => (nodup_append.1 hnd).2.2 a hmem a mem_cons_self rfl
    rw [foldlM_cons]
    rcases scanRib_spec hrts hs ha with ⟨hnone, hsel, b, hb, hb'⟩ | ⟨⟨s', hs', hscan⟩, hbef⟩
    · rw [hnone]
      refine .inl ⟨rfl, fun hall => ha ?_⟩
      rw [hall a (by simp) b (mem_append_left _ hb) hsel hb']
      exact hb
    · have hone' : OneSelected n (done ++ [a]) := by
        intro b hb d hd hb' hd'
        rcases mem_append.1 hb with hb | hb <;> rcases mem_append.1 hd with hd | hd
        · exact hone b hb d hd hb' hd'
        · rw [mem_singleton.1 hd] at hd'
          exact absurd hb' (by simp [hbef hd' b hb])
        · rw [mem_singleton.1 hb] at hb'
          exact absurd hd' (by simp [hbef hb' d hd])
        · rw [mem_singleton.1 hb, mem_singleton.1 hd]
      rw [hs', append_cons]
      exact scan_spec hrts (append_cons done a rest ▸ hnd) hscan hone'

theorem scanned_start (w : World) (n : Node) : Scanned w n [] { node := n } := by
  refine ⟨?_, rfl, rfl, rfl⟩
  simp [scannedNode]

theorem scan_all (w : World) (h : n.routes.Nodup) :
    (n.routes.foldlM (scanRib w) { node := n } = none ∧ ¬OneSelected n n.routes) ∨
    (∃ s, n.routes.foldlM (scanRib w) { node := n } = some s ∧ Scanned w n n.routes s) ∧ OneSelected n n.routes := by
  have hspec : ∀ rest : List Nat, ([] ++ rest).Nodup → _ := fun rest hrest =>
    scan_spec h hrest (scanned_start w n) (by simp [OneSelected])
  exact hspec n.routes h

end Tarpan.ZebraRib
