/-
`rib_process` on a node in order: the best entry is the only selected one afterwards, removed entries are gone, and the
kernel holds a route of the selected entry only.
-/
import Tarpan.ZebraRib.Effects

namespace Tarpan.ZebraRib

open Base List

variable {w : World} {n n' : Node} {a b : Nat} {s : Scan} {rib : Rib}

/-! ## What `rib_process` is for -/

/-- A next hop of the entry is active. -/
def ActiveNow (w : World) (n : Node) (a : Nat) : Prop :=
  ∃ nexthop ∈ (n.rib a).nexthop, (nexthopActiveCheck w n.id (n.rib a) nexthop false).active = true

instance ActiveNow.decidable (w : World) (n : Node) (a : Nat) : Decidable (ActiveNow w n a) :=
  inferInstanceAs (Decidable (∃ _ ∈ _, _))

/-- An entry that may be selected. -/
def Candidate (w : World) (n : Node) (a : Nat) : Prop :=
  (n.rib a).removed = false ∧ ActiveNow w n a ∧ (n.rib a).distance ≠ distanceInfinity

instance Candidate.decidable (w : World) (n : Node) (a : Nat) : Decidable (Candidate w n a) :=
  inferInstanceAs (Decidable (_ ∧ _ ∧ _))

/-- After `rib_process`, the removed entries are gone; the last of the best entries that may be selected is selected,
and no other one; and the kernel holds a route of the selected entry only. -/
structure Selects (w : World) (n n' : Node) : Prop where
  routes : n'.routes = n.routes.filter fun a => !(n.rib a).removed
  gone : ∀ a ∈ n'.routes, (n'.rib a).removed = false
  best : ∀ a ∈ n'.routes, (n'.rib a).flags.selected = true ↔
    IsLastMin (fun a => (n.rib a).rank) (n.routes.filter fun a => Candidate w n a) a
  one : OneSelected n' n'.routes
  some : (∃ a ∈ n'.routes, (n'.rib a).flags.selected = true) ↔ ∃ a ∈ n.routes, Candidate w n a
  kernel : ∀ a, n'.kernel a ≠ none → a ∈ n'.routes ∧ (n'.rib a).flags.selected = true

/-! ## What every call keeps -/

structure Node.Sound (n : Node) : Prop where
  nodup : n.routes.Nodup
  old : ∀ a ∈ n.routes, a < n.brk
  one : OneSelected n n.routes
  few : ∀ a ∈ n.routes, (n.rib a).nexthop.length ≤ 255
  kernel : ∀ a, n.kernel a ≠ none → a ∈ n.routes ∧ (n.rib a).flags.selected = true
  fits : ∀ a, KernelFits n a

theorem eligible_iff (h : (n.rib a).nexthop.length ≤ 255) : Eligible w n a ↔ Candidate w n a := by
  have hcnt : (checked w n a).nexthopActiveNum ≠ 0 ↔ ActiveNow w n a := by
    have hle : ((n.rib a).nexthop.map (nexthopActiveCheck w n.id (n.rib a) · false)).countP (·.active) ≤ 255 :=
      countP_le_length.trans (by rwa [length_map])
    change UInt8.ofNat _ ≠ 0 ↔ _
    rw [Ne, ← UInt8.toNat_inj, UInt8.toNat_ofNat', Nat.mod_eq_of_lt (by omega), UInt8.toNat_zero, ← Ne,
      ← Nat.pos_iff_ne_zero,
      countP_pos_iff]
    simp only [mem_map]
    constructor
    · rintro ⟨_, ⟨nexthop, hmem, rfl⟩, hact⟩
      exact ⟨nexthop, hmem, hact⟩
    · rintro ⟨nexthop, hmem, hact⟩
      exact ⟨_, ⟨nexthop, hmem, rfl⟩, hact⟩
  rw [Eligible, Candidate, hcnt]

/-! ## After the loop -/

theorem scannedNode_core (w : World) (n : Node) (done : List Nat) (a : Nat) :
    ((scannedNode w n done).rib a).core = (n.rib a).core ∧
    ((scannedNode w n done).rib a).flags.selected = (n.rib a).flags.selected := by
  change Rib.core (if _ then _ else _) = _ ∧ RibFlags.selected (Rib.flags (if _ then _ else _)) = _
  split
  · exact ⟨core_activeUpdate .., rfl⟩
  · exact ⟨rfl, rfl⟩

theorem scannedNode_fits (w : World) (done : List Nat) (h : KernelFits n a) : KernelFits (scannedNode w n done) a := by
  intro hker
  obtain ⟨hsys, huni, hheld⟩ := h hker
  refine ⟨(system_of_core (scannedNode_core w n done a).1).trans hsys, huni, ?_⟩
  change Held (if _ then _ else _)
  split
  · exact held_checked w n.id hheld
  · exact hheld

/-- The node after the route that was selected is not so any more. -/
abbrev Scan.cleared (s : Scan) (w : World) : Node := s.fib.elim s.node (removeFib w s.node)
abbrev Node.kept (n : Node) : List Nat := n.routes.filter fun a => !(n.rib a).removed

/-- The state before entries are unlinked: only the entry that the loop found is selected, and the kernel holds routes
of no other one. -/
structure Chosen (n n' : Node) (select : Option Nat) : Prop where
  unicast : n'.unicast = n.unicast
  brk : n'.brk = n.brk
  core : ∀ a, (n'.rib a).core = (n.rib a).core
  selected : ∀ a ∈ n.routes, (n'.rib a).flags.selected = true ↔ select = some a
  kernel : ∀ a, n'.kernel a ≠ none → select = some a
  fits : ∀ a, KernelFits n' a

theorem fits_of_none (h : n.kernel a = none) : KernelFits n a := fun hker => absurd h hker

/-- No entry but `a` is selected, and the kernel holds no route of another one. -/
structure Alone (n n1 : Node) (a : Nat) : Prop where
  unicast : n1.unicast = n.unicast
  brk : n1.brk = n.brk
  core : ∀ b, (n1.rib b).core = (n.rib b).core
  selected : ∀ b ∈ n.routes, b ≠ a → (n1.rib b).flags.selected ≠ true
  kernel : ∀ b ≠ a, n1.kernel b = none

theorem Alone.chosen {n1 : Node} {x : Bool} (h : Alone n n1 a) (htouches : Touches a x n1 n') (hfits : KernelFits n' a)
    (hnone : x = false → n'.kernel a = none) : Chosen n n' (if x then some a else none) := by
  have hother : ∀ b ≠ a, n'.kernel b = none := fun b hb => (htouches.kernel b hb).trans (h.kernel b hb)
  refine ⟨htouches.unicast.trans h.unicast, htouches.brk.trans h.brk, fun b => ?_, fun b hb => ?_, fun b hb => ?_,
    fun b => ?_⟩
  · by_cases hba : b = a
    · rw [hba, htouches.core, h.core]
    · rw [htouches.rib b hba, h.core]
  · by_cases hba : b = a
    · rw [hba, htouches.selected]
      cases x <;> simp
    rw [htouches.rib b hba]
    refine iff_of_false (h.selected b hb hba) ?_
    cases x <;> simp [Ne.symm hba]
  · obtain rfl : b = a := by_contra fun hba => hb (hother b hba)
    cases x with
    | true => rfl
    | false => exact absurd (hnone rfl) hb
  · by_cases hba : b = a
    · exact hba ▸ hfits
    · exact fits_of_none (hother b hba)

theorem Node.Sound.alone (h : n.Sound) (w : World)
    (hfib : (n.routes.find? fun a => (n.rib a).flags.selected) = some a) :
    Alone n (scannedNode w n n.routes) a := by
  have hcore := scannedNode_core w n n.routes
  have hsel := find?_some hfib
  have hone : ∀ b ∈ n.routes, (n.rib b).flags.selected = true → b = a :=
    fun b hb hb' => h.one b hb a (mem_of_find?_eq_some hfib) hb' hsel
  refine ⟨rfl, rfl, fun b => (hcore b).1, fun b hb hba hb' => hba (hone b hb ((hcore b).2 ▸ hb')), fun b hba => ?_⟩
  by_contra hb
  exact hba (hone b (h.kernel b hb).1 (h.kernel b hb).2)

theorem addSelect_chosen {n1 : Node} (h : Chosen n n1 none) (a : Nat) :
    Chosen n (addSelect w n1 a) (some a) ∧ (addSelect w n1 a).routes = n1.routes := by
  have htouches := addSelect_touches w n1 a
  have hker : ∀ b, n1.kernel b = none := fun b => by
    by_contra hb
    cases h.kernel b hb
  have halone : Alone n n1 a :=
    { h with
      selected := fun b hb _ hb' => (by cases (h.selected b hb).1 hb'), kernel := fun b _ => hker b }
  exact ⟨halone.chosen htouches (addSelect_fits w (hker a)) (by simp), htouches.routes⟩

section
variable (h : n.Sound) (hs : Scanned w n n.routes s)
include h hs

theorem routes_left (n1 : Node) (hrts : n1.routes = s.node.routes) :
    (s.del.elim n1 (ribUnlink n1)).routes = n.kept := by
  have hscan : n1.routes = n.routes.filter fun a => !dead n a := by
    rw [hrts, hs.node]
    exact filter_congr fun a ha => by simp [ha]
  rw [hs.del, hs.fib]
  cases hfib : n.routes.find? fun a => (n.rib a).flags.selected with
  | none =>
    refine hscan.trans (filter_congr fun a ha => ?_)
    have hsel := find?_eq_none.1 hfib a ha
    simp [dead, hsel]
  | some f =>
    have hmem := mem_of_find?_eq_some hfib
    have hsel := find?_some hfib
    have hother : ∀ a ∈ n.routes, a ≠ f → (n.rib a).flags.selected = false := by
      intro a ha hne
      by_contra htrue
      exact hne (h.one a ha f hmem (by simpa using htrue) hsel)
    rw [Option.filter_some]
    split_ifs with hrem
    · change n1.routes.erase f = _
      rw [hscan, Nodup.erase_eq_filter (h.nodup.filter _), filter_filter]
      refine filter_congr fun a ha => ?_
      by_cases hne : a = f
      · simp [hne, hrem]
      · simp [hne, dead, hother a ha hne]
    · refine hscan.trans (filter_congr fun a ha => ?_)
      by_cases hne : a = f
      · simp [hne, hrem, dead]
      · simp [dead, hother a ha hne]

theorem updateFib_chosen (hfib : s.fib = some a) :
    Chosen n (updateFib w s.node a) (some a) ∧ (updateFib w s.node a).routes = s.node.routes := by
  rw [hs.fib] at hfib
  have hsel := find?_some hfib
  have htouches := updateFib_touches w s.node a
  rw [hs.node] at htouches ⊢
  rw [(scannedNode_core ..).2, hsel] at htouches
  have hfits := updateFib_fits w (scannedNode_fits w n.routes (h.fits a))
  exact ⟨(h.alone w hfib).chosen htouches hfits (by simp), htouches.routes⟩

/-- The entry that was selected is so no more, and the kernel holds nothing. -/
theorem removeFib_chosen : Chosen n (s.cleared w) none ∧ (s.cleared w).routes = s.node.routes := by
  have hcore := scannedNode_core w n n.routes
  rw [Scan.cleared, hs.fib, hs.node]
  cases hfib : n.routes.find? fun a => (n.rib a).flags.selected with
  | none =>
    have hnone : ∀ a ∈ n.routes, (n.rib a).flags.selected ≠ true := fun a ha => by simpa using find?_eq_none.1 hfib a ha
    refine ⟨⟨rfl, rfl, fun b => (hcore b).1, fun b hb => ?_, fun b hb => ?_, fun b => ?_⟩, rfl⟩
    · exact iff_of_false (fun hb' => hnone b hb ((hcore b).2 ▸ hb')) (by simp)
    · exact absurd (h.kernel b hb).2 (hnone b (h.kernel b hb).1)
    · exact scannedNode_fits w _ (h.fits b)
  | some f =>
    have htouches := removeFib_touches w (scannedNode w n n.routes) f
    have hker := removeFib_kernel w (scannedNode_fits w n.routes (h.fits f))
    exact ⟨(h.alone w hfib).chosen htouches (fits_of_none hker) fun _ => hker, htouches.routes⟩

theorem applyScan_chosen : ∃ n', Chosen n n' s.select ∧ applyScan w s = { n' with routes := n.kept } := by
  rw [applyScan]
  split_ifs with hsame
  · obtain ⟨a, ha⟩ := Option.isSome_iff_exists.1 hsame.1
    have hfib : s.fib = some a := hsame.2 ▸ ha
    obtain ⟨hchosen, hrts⟩ := updateFib_chosen h hs hfib
    rw [ha]
    refine ⟨_, hchosen, ?_⟩
    -- an eligible entry is not removed, so there is nothing left to unlink
    have hmin := lastMin_eq_some_iff.1 (hs.select ▸ ha)
    have helig : Eligible w n a := by simpa using (mem_filter.1 hmin.mem).2
    have hdel : s.del = none := by
      rw [hs.del, hfib, Option.filter_some, if_neg (by simp [helig.1])]
    have hleft := routes_left h hs (updateFib w s.node a) hrts
    rw [hdel] at hleft
    rw [← hleft]
    rfl
  · obtain ⟨hrem, hrts1⟩ := removeFib_chosen h hs
    have hsel : Chosen n (s.select.elim (s.cleared w) (addSelect w (s.cleared w))) s.select ∧
        (s.select.elim (s.cleared w) (addSelect w (s.cleared w))).routes = s.node.routes := by
      cases s.select with
      | none => exact ⟨hrem, hrts1⟩
      | some a =>
        obtain ⟨hadd, hrts2⟩ := addSelect_chosen hrem a
        exact ⟨hadd, hrts2.trans hrts1⟩
    refine ⟨_, hsel.1, ?_⟩
    have hleft := routes_left h hs _ hsel.2
    rw [← hleft]
    cases s.del with
    | none => rfl
    | some d => rfl

end

theorem ribProcess_core (h : n.Sound) (hproc : ribProcess w n = some n') (a : Nat) :
    (n'.rib a).core = (n.rib a).core := by
  rcases scan_all w h.nodup with ⟨hfails, -⟩ | ⟨⟨s, hrun, hs⟩, -⟩
  · rw [ribProcess, hfails] at hproc
    cases hproc
  obtain ⟨n1, hchosen, happly⟩ := applyScan_chosen h hs
  rw [ribProcess, hrun] at hproc
  cases hproc
  rw [happly]
  exact hchosen.core a

/-- `rib_process` selects what it should, and keeps the node in order. -/
theorem ribProcess_spec (h : n.Sound) (w : World) : ∃ n', ribProcess w n = some n' ∧ Selects w n n' ∧ n'.Sound := by
  rcases scan_all w h.nodup with ⟨-, hnot⟩ | ⟨⟨s, hrun, hs⟩, -⟩
  · exact absurd h.one hnot
  obtain ⟨n1, hchosen, happly⟩ := applyScan_chosen h hs
  refine ⟨applyScan w s, ?_, ?_⟩
  · rw [ribProcess, hrun]
    rfl
  rw [happly]
  have hfil : n.routes.filter (Eligible w n) = n.routes.filter fun a => Candidate w n a :=
    filter_congr fun a ha => by simp [eligible_iff (h.few a ha)]
  have hsel : s.select = lastMin (fun a => (n.rib a).rank) (n.routes.filter fun a => Candidate w n a) := by
    rw [hs.select, hfil]
  have hkept : ∀ a ∈ n.kept, a ∈ n.routes := fun a ha => (mem_filter.1 ha).1
  have hfound : ∀ a, s.select = some a → a ∈ n.kept := by
    intro a ha
    rw [hsel] at ha
    obtain ⟨hmem, hcand⟩ := mem_filter.1 (lastMin_eq_some_iff.1 ha).mem
    have hcand : Candidate w n a := by simpa using hcand
    exact mem_filter.2 ⟨hmem, by simp [hcand.1]⟩
  have hselected : ∀ a ∈ n.kept, (n1.rib a).flags.selected = true ↔ s.select = some a :=
    fun a ha => hchosen.selected a (hkept a ha)
  have hone : ∀ a ∈ n.kept, ∀ b ∈ n.kept,
      (n1.rib a).flags.selected = true → (n1.rib b).flags.selected = true → a = b := by
    intro a ha b hb ha' hb'
    have heq := ((hselected a ha).1 ha').symm.trans ((hselected b hb).1 hb')
    simpa using heq
  have hker : ∀ a, n1.kernel a ≠ none → a ∈ n.kept ∧ (n1.rib a).flags.selected = true := by
    intro a ha
    have hsel' := hchosen.kernel a ha
    exact ⟨hfound a hsel', (hselected a (hfound a hsel')).2 hsel'⟩
  refine ⟨⟨rfl, fun a ha => ?_, fun a ha => ?_, hone, ?_, hker⟩,
    ⟨h.nodup.filter _, fun a ha => ?_, hone, fun a ha => ?_, hker, fun a => ?_⟩⟩
  · have hrem := removed_of_core (hchosen.core a)
    rw [hrem]
    simpa using (mem_filter.1 ha).2
  · rw [hselected a ha, hsel]
    exact lastMin_eq_some_iff
  · constructor
    · rintro ⟨a, ha, ha'⟩
      have hmin := (hselected a ha).1 ha'
      rw [hsel] at hmin
      obtain ⟨hmem, hcand⟩ := mem_filter.1 (lastMin_eq_some_iff.1 hmin).mem
      exact ⟨a, hmem, by simpa using hcand⟩
    · rintro ⟨a, ha, ha'⟩
      rcases lastMin_spec (fun a => (n.rib a).rank) (n.routes.filter fun a => Candidate w n a)
        with ⟨-, hnil⟩ | ⟨m, hm, -⟩
      · have hmem : a ∈ n.routes.filter fun a => Candidate w n a := mem_filter.2 ⟨ha, by simpa using ha'⟩
        rw [hnil] at hmem
        cases hmem
      · have hm' : s.select = some m := hsel.trans hm
        exact ⟨m, hfound m hm', (hselected m (hfound m hm')).2 hm'⟩
  · rw [hchosen.brk]
    exact h.old a (hkept a ha)
  · have hlength : (n1.rib a).nexthop.length = (n.rib a).nexthop.length := congrArg (·.2.2.2.2.2) (hchosen.core a)
    rw [hlength]
    exact h.few a (hkept a ha)
  · exact hchosen.fits a

end Tarpan.ZebraRib
