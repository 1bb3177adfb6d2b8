/-
Choosing one element of a list by running comparison: the holder meets the elements in turn and
gives way to each that beats it. The comparison is any relation, an order or not. In a selection
of two rounds the list is first cut into groups, each led by the first element no earlier group
has taken, and only the holders of the groups take part in the second round.
-/
import Mathlib.Data.List.MinMax

namespace Tarpan.Base

open List

variable {α : Type*}

/-! ## One round -/

section Knockout
variable (beats : α → α → Bool)

/-- The holder that is left when `w` has met `l` in turn. -/
def knockoutFrom (w : α) (l : List α) : α := l.foldl (fun w x => if beats x w then x else w) w

/-- The holder that is left of a list; the first element starts as the holder. -/
def knockout : List α → Option α
  | [] => none
  | x :: l => some (knockoutFrom beats x l)

/-- `u` beats every other element of `l` and is beaten by none of them. -/
def Dominates (u : α) (l : List α) : Prop := ∀ x ∈ l, x ≠ u → beats u x = true ∧ beats x u = false

@[simp] theorem knockoutFrom_nil (w : α) : knockoutFrom beats w [] = w := rfl

@[simp] theorem knockoutFrom_cons (w x : α) (l : List α) :
    knockoutFrom beats w (x :: l) = knockoutFrom beats (if beats x w then x else w) l := rfl

variable {l : List α}

theorem knockout_eq_none_iff : knockout beats l = none ↔ l = [] := by
  cases l <;> simp [knockout]

variable {beats} {beats' : α → α → Bool} {u : α}

theorem knockoutFrom_mem : ∀ (l : List α) (w : α), knockoutFrom beats w l ∈ w :: l
  | [], w => mem_cons_self
  | x :: l, w => by
    rw [knockoutFrom_cons]
    split
    · exact mem_cons_of_mem _ (knockoutFrom_mem l x)
    rcases mem_cons.1 (knockoutFrom_mem l w) with h | h
    · rw [h]; exact mem_cons_self
    · exact mem_cons_of_mem _ (mem_cons_of_mem _ h)

theorem knockout_mem (h : knockout beats l = some u) : u ∈ l := by
  cases l with
  | nil => cases h
  | cons x l =>
    obtain rfl := Option.some.inj h
    exact knockoutFrom_mem l x

/-- A holder that no other element beats stays. -/
theorem knockoutFrom_eq_self : ∀ {l : List α} {w : α}, (∀ x ∈ l, x ≠ w → beats x w = false) → knockoutFrom beats w l = w
  | [], _, _ => rfl
  | x :: l, w, h => by
    have hx : (if beats x w then x else w) = w := by
      by_cases hxw : x = w
      · rw [hxw, ite_self]
      · rw [h x mem_cons_self hxw]; rfl
    rw [knockoutFrom_cons, hx]
    exact knockoutFrom_eq_self fun y hy => h y (mem_cons_of_mem _ hy)

theorem knockoutFrom_eq_of_dominates : ∀ {l : List α} {w : α}, u ∈ w :: l →
    Dominates beats u (w :: l) → knockoutFrom beats w l = u
  | [], w, hu, _ => (mem_singleton.1 hu).symm
  | x :: l, w, hu, hd => by
    by_cases hw : w = u
    · subst hw
      exact knockoutFrom_eq_self fun y hy hne => (hd y (mem_cons_of_mem _ hy) hne).2
    rw [knockoutFrom_cons]
    have htail : Dominates beats u (x :: l) := fun y hy => hd y (mem_cons_of_mem _ hy)
    have hu' : u ∈ x :: l := (mem_cons.1 hu).resolve_left (Ne.symm hw)
    split
    · exact knockoutFrom_eq_of_dominates hu' htail
    -- `x` could not beat `w`, so it is not `u`, which is still to come
    rename_i hlose
    have hxu : x ≠ u := by
      rintro rfl
      exact hlose (hd w mem_cons_self hw).1
    refine knockoutFrom_eq_of_dominates ?_ fun y hy hne => ?_
    · exact mem_cons_of_mem _ ((mem_cons.1 hu').resolve_left (Ne.symm hxu))
    · rcases mem_cons.1 hy with rfl | hy
      · exact hd _ mem_cons_self hne
      · exact htail y (mem_cons_of_mem _ hy) hne

/-- An element that dominates the list is chosen, in whatever order the list comes. -/
theorem knockout_eq_of_dominates (hu : u ∈ l) (hd : Dominates beats u l) : knockout beats l = some u := by
  cases l with
  | nil => cases hu
  | cons x l => exact congrArg some (knockoutFrom_eq_of_dominates hu hd)

theorem knockoutFrom_congr : ∀ {l : List α} {w : α},
    (∀ x ∈ w :: l, ∀ y ∈ w :: l, beats x y = beats' x y) → knockoutFrom beats w l = knockoutFrom beats' w l
  | [], _, _ => rfl
  | x :: l, w, h => by
    rw [knockoutFrom_cons, knockoutFrom_cons, h x (mem_cons_of_mem _ mem_cons_self) w mem_cons_self]
    have hsub : ∀ v ∈ (if beats' x w then x else w) :: l, v ∈ w :: x :: l := by
      intro v hv
      rcases mem_cons.1 hv with rfl | hv
      · split
        · exact mem_cons_of_mem _ mem_cons_self
        · exact mem_cons_self
      · exact mem_cons_of_mem _ (mem_cons_of_mem _ hv)
    exact knockoutFrom_congr fun a ha b hb => h a (hsub a ha) b (hsub b hb)

theorem knockout_congr (h : ∀ x ∈ l, ∀ y ∈ l, beats x y = beats' x y) : knockout beats l = knockout beats' l := by
  cases l with
  | nil => rfl
  | cons x l => exact congrArg some (knockoutFrom_congr h)

theorem knockout_concat (l : List α) (x : α) : knockout beats (l ++ [x]) =
    match knockout beats l with
    | none => some x
    | some w => if beats x w then some x else some w := by
  cases l with
  | nil => rfl
  | cons y l =>
    simp only [cons_append, knockout, knockoutFrom, foldl_append, foldl_cons]
    split <;> rfl

/-- Where beating means having the smaller key, the choice is the first of the least elements. -/
theorem knockout_eq_argmin {β : Type*} [Preorder β] [DecidableLT β] {key : α → β}
    (h : ∀ x ∈ l, ∀ y ∈ l, beats x y = decide (key x < key y)) : knockout beats l = l.argmin key := by
  induction l using reverseRecOn with
  | nil => rfl
  | append_singleton l x ih =>
    have hl := ih fun a ha b hb => h a (mem_append_left _ ha) b (mem_append_left _ hb)
    rw [knockout_concat, argmin_concat, hl]
    cases hw : l.argmin key with
    | none => rfl
    | some w =>
      have hxw := h x (mem_append_right _ (mem_singleton_self x)) w (mem_append_left _ (argmin_mem hw))
      simp [hxw]

end Knockout

/-! ## Groups -/

section Groups
variable (rel : α → α → Bool)

/-- What the leader `x` leaves to later groups. -/
def ungrouped (x : α) (l : List α) : List α := l.filter fun y => !rel x y

/-- The groups of a list: the first element and those later ones that it is related to, then the
groups of what is left. -/
def leaderGroups : List α → List (List α)
  | [] => []
  | x :: l => (x :: l.filter (rel x)) :: leaderGroups (ungrouped rel x l)
termination_by l => l.length
decreasing_by exact Nat.lt_succ_of_le (length_filter_le _ l)

variable {rel}

variable {y z : α} {l : List α}

theorem mem_ungrouped {x : α} : y ∈ ungrouped rel x l ↔ y ∈ l ∧ rel x y = false := by
  simp [ungrouped]

variable {g : List α}

/-- Each element is in one group. -/
theorem flatten_leaderGroups_perm : ∀ l : List α, (leaderGroups rel l).flatten.Perm l := by
  intro l
  induction l using leaderGroups.induct rel with
  | case1 => simp [leaderGroups]
  | case2 x l ih =>
    rw [leaderGroups, flatten_cons, cons_append]
    exact .cons x ((ih.append_left _).trans (filter_append_perm _ _))

theorem mem_of_mem_group (hg : g ∈ leaderGroups rel l) (hy : y ∈ g) : y ∈ l :=
  (flatten_leaderGroups_perm l).mem_iff.1 (mem_flatten_of_mem hg hy)

theorem exists_group (hy : y ∈ l) : ∃ g ∈ leaderGroups rel l, y ∈ g :=
  mem_flatten.1 ((flatten_leaderGroups_perm l).mem_iff.2 hy)

theorem leaderGroups_cons_append {x : α} {t o : List α} (ht : ∀ y ∈ t, rel x y = true) (ho : ∀ y ∈ o, rel x y = false) :
    leaderGroups rel (x :: (t ++ o)) = (x :: t) :: leaderGroups rel o := by
  have hnone : o.filter (rel x) = [] := filter_eq_nil_iff.2 fun y hy => by simp [ho y hy]
  have hleft : ungrouped rel x (t ++ o) = o := by
    rw [ungrouped, filter_append, filter_eq_nil_iff.2 fun y hy => by simp [ht y hy], nil_append]
    exact filter_eq_self.2 fun y hy => by simp [ho y hy]
  rw [leaderGroups, filter_append, filter_eq_self.2 ht, hnone, append_nil, hleft]

/-- Every element of a group but its leader is related to the leader. -/
theorem exists_leader : ∀ {l : List α}, g ∈ leaderGroups rel l → ∃ x t, g = x :: t ∧ ∀ y ∈ t, rel x y = true := by
  intro l
  induction l using leaderGroups.induct rel with
  | case1 => simp [leaderGroups]
  | case2 x l ih =>
    intro hg
    rw [leaderGroups, mem_cons] at hg
    rcases hg with rfl | hg
    · exact ⟨x, _, rfl, fun y hy => (mem_filter.1 hy).2⟩
    · exact ih hg

/-- For a relation that is symmetric and transitive, a group takes along what its elements are
related to. -/
theorem mem_group_of_rel : ∀ {l : List α}, (∀ a ∈ l, ∀ b ∈ l, rel a b = true → rel b a = true) →
    (∀ a ∈ l, ∀ b ∈ l, ∀ c ∈ l, rel a b = true → rel b c = true → rel a c = true) →
    g ∈ leaderGroups rel l → y ∈ g → z ∈ l → rel y z = true → z ∈ g := by
  intro l
  induction l using leaderGroups.induct rel with
  | case1 => simp
  | case2 x l ih =>
    intro hsymm htrans hg hy hz hyz
    have hyl := mem_of_mem_group hg hy
    rw [leaderGroups, mem_cons] at hg
    have hx : x ∈ x :: l := mem_cons_self
    rcases hg with rfl | hg
    · rcases mem_cons.1 hz with rfl | hzl
      · exact mem_cons_self
      refine mem_cons_of_mem _ (mem_filter.2 ⟨hzl, ?_⟩)
      rcases mem_cons.1 hy with rfl | hy
      · exact hyz
      · exact htrans x hx y hyl z hz (mem_filter.1 hy).2 hyz
    · -- `y` is in a later group, so the leader `x` is related neither to `y` nor to `z`
      have hxy : rel x y = false := (mem_ungrouped.1 (mem_of_mem_group hg hy)).2
      have hsub : ∀ a ∈ ungrouped rel x l, a ∈ x :: l :=
        fun a ha => mem_cons_of_mem _ (mem_ungrouped.1 ha).1
      refine ih (fun a ha b hb => hsymm a (hsub a ha) b (hsub b hb))
        (fun a ha b hb c hc => htrans a (hsub a ha) b (hsub b hb) c (hsub c hc)) hg hy ?_ hyz
      have hxz : rel x z ≠ true := fun h => by
        have := htrans x hx z hz y hyl h (hsymm y hyl z hz hyz)
        rw [hxy] at this
        cases this
      refine mem_ungrouped.2 ⟨(mem_cons.1 hz).resolve_left ?_, Bool.eq_false_iff.2 hxz⟩
      rintro rfl
      have := hsymm y hyl z hz hyz
      rw [hxy] at this
      cases this

/-- Two elements of one group, neither of them the other, are related. -/
theorem rel_of_mem_group (hsymm : ∀ a ∈ l, ∀ b ∈ l, rel a b = true → rel b a = true)
    (htrans : ∀ a ∈ l, ∀ b ∈ l, ∀ c ∈ l, rel a b = true → rel b c = true → rel a c = true)
    (hg : g ∈ leaderGroups rel l) (hy : y ∈ g) (hz : z ∈ g) (hne : y ≠ z) : rel y z = true := by
  have hmem : ∀ a ∈ g, a ∈ l := fun a => mem_of_mem_group hg
  obtain ⟨x, t, rfl, hlead⟩ := exists_leader hg
  have hx := hmem x mem_cons_self
  rcases mem_cons.1 hy with rfl | hyt
  · exact hlead z ((mem_cons.1 hz).resolve_left (Ne.symm hne))
  have hyx := hsymm x hx y (hmem y hy) (hlead y hyt)
  rcases mem_cons.1 hz with rfl | hzt
  · exact hyx
  · exact htrans y (hmem y hy) x hx z (hmem z hz) hyx (hlead z hzt)

end Groups

/-! ## Two rounds -/

section Rounds
variable (rel beats1 beats2 : α → α → Bool)

/-- The holders of the groups. -/
def groupHolders (l : List α) : List α := (leaderGroups rel l).filterMap (knockout beats1)

/-- The choice of the second round among the holders of the groups, which keep their places. -/
def twoRounds [DecidableEq α] (l : List α) : Option α := knockout beats2 (l.filter (· ∈ groupHolders rel beats1 l))

variable {rel beats1 beats2}

variable {l : List α} {u : α}

theorem mem_groupHolders : u ∈ groupHolders rel beats1 l ↔
    ∃ g ∈ leaderGroups rel l, knockout beats1 g = some u := mem_filterMap

/-- Without related elements there is one round. -/
theorem twoRounds_unrelated [DecidableEq α] : twoRounds (fun _ _ => false) beats1 beats2 l = knockout beats2 l := by
  have hholders : ∀ l : List α, groupHolders (fun _ _ => false) beats1 l = l := by
    intro l
    induction l with
    | nil => simp [groupHolders, leaderGroups]
    | cons x l ih =>
      have hgroups : leaderGroups (fun _ _ => false) (x :: l) = [x] :: leaderGroups (fun _ _ => false) l :=
        leaderGroups_cons_append (t := []) nofun fun _ _ => rfl
      rw [groupHolders] at ih ⊢
      have hone : knockout beats1 [x] = some x := rfl
      rw [hgroups, filterMap_cons_some hone, ih]
  rw [twoRounds, hholders, filter_eq_self.2 fun y hy => by simpa using hy]

theorem mem_of_mem_groupHolders (h : u ∈ groupHolders rel beats1 l) : u ∈ l := by
  obtain ⟨g, hg, hu⟩ := mem_groupHolders.1 h
  exact mem_of_mem_group hg (knockout_mem hu)

theorem twoRounds_mem [DecidableEq α] (h : twoRounds rel beats1 beats2 l = some u) : u ∈ l :=
  mem_of_mem_filter (knockout_mem h)

theorem twoRounds_eq_none_iff [DecidableEq α] : twoRounds rel beats1 beats2 l = none ↔ l = [] := by
  rw [twoRounds, knockout_eq_none_iff]
  constructor
  · intro hnone
    cases l with
    | nil => rfl
    | cons x l =>
      -- the group of the first element has a holder
      obtain ⟨g, hg, hx⟩ := @exists_group _ rel x (x :: l) mem_cons_self
      obtain ⟨u, hu⟩ := Option.ne_none_iff_exists'.1 (mt (knockout_eq_none_iff beats1).1 (ne_nil_of_mem hx))
      have hholder := mem_groupHolders.2 ⟨g, hg, hu⟩
      rw [filter_eq_nil_iff] at hnone
      exact absurd (decide_eq_true hholder) (hnone u (mem_of_mem_groupHolders hholder))
  · rintro rfl
    rfl

theorem twoRounds_congr [DecidableEq α] {beats1' beats2' : α → α → Bool}
    (h1 : ∀ x ∈ l, ∀ y ∈ l, beats1 x y = beats1' x y) (h2 : ∀ x ∈ l, ∀ y ∈ l, beats2 x y = beats2' x y) :
    twoRounds rel beats1 beats2 l = twoRounds rel beats1' beats2' l := by
  have hholders : groupHolders rel beats1 l = groupHolders rel beats1' l :=
    filterMap_congr fun g hg => knockout_congr fun x hx y hy =>
      h1 x (mem_of_mem_group hg hx) y (mem_of_mem_group hg hy)
  rw [twoRounds, twoRounds, hholders]
  exact knockout_congr fun x hx y hy => h2 x (mem_of_mem_filter hx) y (mem_of_mem_filter hy)

/-- The element that dominates its group and then all other holders is chosen. -/
theorem twoRounds_eq [DecidableEq α] (hu : u ∈ l) (hgroup : ∀ g ∈ leaderGroups rel l, u ∈ g → Dominates beats1 u g)
    (hholders : ∀ x ∈ groupHolders rel beats1 l, x ≠ u → beats2 u x = true ∧ beats2 x u = false) :
    twoRounds rel beats1 beats2 l = some u := by
  obtain ⟨g, hg, hug⟩ := exists_group hu
  have hholder := mem_groupHolders.2 ⟨g, hg, knockout_eq_of_dominates hug (hgroup g hg hug)⟩
  refine knockout_eq_of_dominates (mem_filter.2 ⟨hu, decide_eq_true hholder⟩) fun x hx => ?_
  exact hholders x (of_decide_eq_true (mem_filter.1 hx).2)

end Rounds

/-! ## Groups that are classes -/

section Classes
variable {κ κ' : Type*} [LinearOrder κ] [LinearOrder κ'] (rel beats1 beats2 : α → α → Bool) (key1 : α → κ)
  (key2 : α → κ')

/-- The relation of the first round has classes; in a class the element with the least first key is chosen, the last
one where there are several, and in the second round the first one with the least second key. -/
structure ClassRounds (l : List α) : Prop where
  symm : ∀ a ∈ l, ∀ b ∈ l, rel a b = true → rel b a = true
  trans : ∀ a ∈ l, ∀ b ∈ l, ∀ c ∈ l, rel a b = true → rel b c = true → rel a c = true
  first : ∀ a ∈ l, ∀ b ∈ l, rel a b = true → beats1 a b = decide (key1 a ≤ key1 b)
  second : ∀ a ∈ l, ∀ b ∈ l, beats2 a b = decide (key2 a < key2 b)

/-- No element of its class has a lower first key. -/
def LeastOfClass (l : List α) (w : α) : Prop := ∀ y ∈ l, rel w y = true → key1 w ≤ key1 y

/-- The only one of its class that can be chosen there, and then before all others that can be chosen in theirs. -/
structure WinsClasses (l : List α) (best : α) : Prop where
  mem : best ∈ l
  first : ∀ y ∈ l, y ≠ best → rel best y = true → key1 best < key1 y
  second : ∀ w ∈ l, w ≠ best → rel best w = false → LeastOfClass rel key1 l w → key2 best < key2 w

variable {rel beats1 beats2 key1 key2} {l l' : List α} {u w : α}

theorem argmin_cons_of_le (h : ∀ y ∈ l, key1 w ≤ key1 y) : (w :: l).argmin key1 = some w := by
  classical
  rw [argmin_eq_some_iff]
  refine ⟨mem_cons_self, ?_, ?_⟩
  · rintro y (_ | ⟨_, hy⟩)
    · exact le_rfl
    · exact h y hy
  · intro y _ _
    simp

/-- Where beating means not having the larger key, the choice has the least key. -/
theorem knockoutFrom_le : ∀ {l : List α} {w : α},
    (∀ x ∈ w :: l, ∀ y ∈ w :: l, x ≠ y → beats1 x y = decide (key1 x ≤ key1 y)) →
    ∀ x ∈ w :: l, key1 (knockoutFrom beats1 w l) ≤ key1 x
  | [], w, _, x, hx => by rw [mem_singleton.1 hx, knockoutFrom_nil]
  | z :: l, w, h, x, hx => by
    have hz : z ∈ w :: z :: l := mem_cons_of_mem _ mem_cons_self
    let v := if beats1 z w then z else w
    have hv : v ∈ w :: z :: l ∧ key1 v ≤ key1 w ∧ key1 v ≤ key1 z := by
      by_cases hzw : z = w
      · simp [v, hzw]
      dsimp only [v]
      rw [h z hz w mem_cons_self hzw]
      split_ifs with hle
      · exact ⟨hz, of_decide_eq_true hle, le_rfl⟩
      · exact ⟨mem_cons_self, le_rfl, (not_le.1 fun h => hle (decide_eq_true h)).le⟩
    have hsub : ∀ y ∈ v :: l, y ∈ w :: z :: l := by
      rintro y (_ | ⟨_, hy⟩)
      · exact hv.1
      · exact mem_cons_of_mem _ (mem_cons_of_mem _ hy)
    have hrest := knockoutFrom_le fun a ha b hb => h a (hsub a ha) b (hsub b hb)
    rw [knockoutFrom_cons]
    rcases mem_cons.1 hx with rfl | hx
    · exact (hrest v mem_cons_self).trans hv.2.1
    rcases mem_cons.1 hx with rfl | hx
    · exact (hrest v mem_cons_self).trans hv.2.2
    · exact hrest x (mem_cons_of_mem _ hx)

theorem ClassRounds.of_perm (h : ClassRounds rel beats1 beats2 key1 key2 l) (hperm : l'.Perm l) :
    ClassRounds rel beats1 beats2 key1 key2 l' where
  symm a ha b hb := h.symm a (hperm.mem_iff.1 ha) b (hperm.mem_iff.1 hb)
  trans a ha b hb c hc := h.trans a (hperm.mem_iff.1 ha) b (hperm.mem_iff.1 hb) c (hperm.mem_iff.1 hc)
  first a ha b hb := h.first a (hperm.mem_iff.1 ha) b (hperm.mem_iff.1 hb)
  second a ha b hb := h.second a (hperm.mem_iff.1 ha) b (hperm.mem_iff.1 hb)

variable (h : ClassRounds rel beats1 beats2 key1 key2 l)
include h

theorem ClassRounds.leastOfClass (hu : u ∈ groupHolders rel beats1 l) : LeastOfClass rel key1 l u := by
  obtain ⟨g, hg, hk⟩ := mem_groupHolders.1 hu
  intro y hy hrel
  have hmem : ∀ a ∈ g, a ∈ l := fun a => mem_of_mem_group hg
  have hyg := mem_group_of_rel h.symm h.trans hg (knockout_mem hk) hy hrel
  have hbeats : ∀ a ∈ g, ∀ b ∈ g, a ≠ b → beats1 a b = decide (key1 a ≤ key1 b) := fun a ha b hb hne =>
    h.first a (hmem a ha) b (hmem b hb) (rel_of_mem_group h.symm h.trans hg ha hb hne)
  cases g with
  | nil => cases hyg
  | cons x t =>
    obtain rfl := Option.some.inj hk
    exact knockoutFrom_le hbeats y hyg

/-- Where the others of its class stand right before the element, they are the first group with it, and it is chosen if
it is least. -/
theorem ClassRounds.groupHolders_front {mates others : List α} (hw : w ∈ l)
    (hmates : ∀ y ∈ mates, y ∈ l ∧ rel w y = true) (hothers : ∀ y ∈ others, y ∈ l ∧ rel w y = false)
    (hleast : LeastOfClass rel key1 l w) :
    groupHolders rel beats1 (mates ++ w :: others) = w :: groupHolders rel beats1 others := by
  have hgroups : leaderGroups rel (mates ++ w :: others) = (mates ++ [w]) :: leaderGroups rel others := by
    cases mates with
    | nil => exact @leaderGroups_cons_append _ rel w [] others nofun fun y hy => (hothers y hy).2
    | cons x t =>
      obtain ⟨hx, hwx⟩ := hmates x mem_cons_self
      have hxw := h.symm w hw x hx hwx
      rw [cons_append, append_cons, leaderGroups_cons_append]
      · rfl
      · intro y hy
        rcases mem_append.1 hy with hy | hy
        · obtain ⟨hyl, hwy⟩ := hmates y (mem_cons_of_mem _ hy)
          exact h.trans x hx w hw y hyl hxw hwy
        · rw [mem_singleton.1 hy]
          exact hxw
      · intro y hy
        obtain ⟨hyl, hwy⟩ := hothers y hy
        by_contra hxy
        rw [h.trans w hw x hx y hyl hwx (by simpa using hxy)] at hwy
        cases hwy
  have hk : knockout beats1 (mates ++ [w]) = some w := by
    rw [knockout_concat]
    cases hk : knockout beats1 mates with
    | none => rfl
    | some v =>
      obtain ⟨hv, hrel⟩ := hmates v (knockout_mem hk)
      have hbeats := h.first w hw v hv hrel
      rw [decide_eq_true (hleast v hv hrel)] at hbeats
      simp [hbeats]
  rw [groupHolders, hgroups, filterMap_cons_some hk, groupHolders]

/-- An element that is least of its class is chosen there in some order of the list, and then comes first of all that
are chosen. -/
theorem ClassRounds.exists_perm [DecidableEq α] (hnd : l.Nodup) (hw : w ∈ l) (hleast : LeastOfClass rel key1 l w) :
    ∃ l' rest, l'.Perm l ∧ (∀ y ∈ rest, y ∈ l ∧ rel w y = false) ∧
      twoRounds rel beats1 beats2 l' = knockout beats2 (w :: rest) := by
  let mates := (l.erase w).filter (rel w)
  let others := ungrouped rel w (l.erase w)
  have hmates : ∀ y ∈ mates, y ∈ l ∧ y ≠ w ∧ rel w y = true := fun y hy =>
    ⟨mem_of_mem_erase (mem_of_mem_filter hy), (hnd.mem_erase_iff.1 (mem_of_mem_filter hy)).1, (mem_filter.1 hy).2⟩
  have hothers : ∀ y ∈ others, y ∈ l ∧ y ≠ w ∧ rel w y = false := fun y hy =>
    ⟨mem_of_mem_erase (mem_ungrouped.1 hy).1, (hnd.mem_erase_iff.1 (mem_ungrouped.1 hy).1).1, (mem_ungrouped.1 hy).2⟩
  have hperm : (mates ++ w :: others).Perm l := by
    refine perm_middle.trans (.trans (.cons w ?_) (perm_cons_erase hw).symm)
    exact filter_append_perm _ _
  have hholders := h.groupHolders_front hw (fun y hy => ⟨(hmates y hy).1, (hmates y hy).2.2⟩)
    (fun y hy => ⟨(hothers y hy).1, (hothers y hy).2.2⟩) hleast
  refine ⟨_, others.filter (· ∈ groupHolders rel beats1 others), hperm, fun y hy => ?_, ?_⟩
  · obtain ⟨hyl, -, hrel⟩ := hothers y (mem_of_mem_filter hy)
    exact ⟨hyl, hrel⟩
  have hnone : mates.filter (· ∈ w :: groupHolders rel beats1 others) = [] := by
    rw [filter_eq_nil_iff]
    intro y hy hmem
    obtain ⟨-, hyw, hrel⟩ := hmates y hy
    rcases mem_cons.1 (of_decide_eq_true hmem) with hyw' | hmem
    · exact hyw hyw'
    · have := (hothers y (mem_of_mem_groupHolders hmem)).2.2
      rw [hrel] at this
      cases this
  have hsame : others.filter (· ∈ w :: groupHolders rel beats1 others) =
      others.filter (· ∈ groupHolders rel beats1 others) := by
    apply filter_congr
    intro y hy
    simp [(hothers y hy).2.1]
  rw [twoRounds, hholders, filter_append, hnone, nil_append, filter_cons_of_pos (by simp), hsame]

/-- Two rounds give the same choice in every order of the list exactly where one element wins. -/
theorem ClassRounds.perm_iff [DecidableEq α] (hnd : l.Nodup) (hne : l ≠ []) :
    (∀ l', l'.Perm l → twoRounds rel beats1 beats2 l' = twoRounds rel beats1 beats2 l) ↔
      ∃ best, WinsClasses rel key1 key2 l best := by
  constructor
  · intro hsame
    obtain ⟨best, hbest⟩ := Option.ne_none_iff_exists'.1 (mt twoRounds_eq_none_iff.1 hne)
    rw [hbest] at hsame
    have hmem := twoRounds_mem hbest
    have hleast := h.leastOfClass (of_decide_eq_true (mem_filter.1 (knockout_mem hbest)).2)
    refine ⟨best, hmem, fun y hy hyb hrel => ?_, fun w hw hwb hrel hwleast => ?_⟩
    · -- otherwise `y` is chosen in its place in some order
      refine lt_of_le_of_ne (hleast y hy hrel) fun heq => ?_
      have hyleast : LeastOfClass rel key1 l y := fun z hz hyz => by
        rw [← heq]
        exact hleast z hz (h.trans best hmem y hy z hz hrel hyz)
      obtain ⟨l', rest, hperm, hrest, hrounds⟩ := h.exists_perm hnd hy hyleast
      have hk := knockout_mem (hrounds.symm.trans (hsame l' hperm))
      have hbrest := (hrest best ((mem_cons.1 hk).resolve_left (Ne.symm hyb))).2
      rw [h.symm best hmem y hy hrel] at hbrest
      cases hbrest
    · obtain ⟨l', rest, hperm, hrest, hrounds⟩ := h.exists_perm hnd hw hwleast
      have hk := hrounds.symm.trans (hsame l' hperm)
      have hin : ∀ y ∈ w :: rest, y ∈ l := by
        rintro y (_ | ⟨_, hy⟩)
        · exact hw
        · exact (hrest y hy).1
      rw [knockout_eq_argmin fun x hx y hy => h.second x (hin x hx) y (hin y hy)] at hk
      by_contra hlt
      have hfront : (w :: rest).argmin key2 = some w := argmin_cons_of_le fun y hy =>
        (not_lt.1 hlt).trans (le_of_mem_argmin (mem_cons_of_mem _ hy) hk)
      exact hwb (Option.some.inj (hfront.symm.trans hk))
  · rintro ⟨best, hwins⟩
    have hall : ∀ l', l'.Perm l → twoRounds rel beats1 beats2 l' = some best := by
      intro l' hperm
      have h' := h.of_perm hperm
      refine twoRounds_eq (hperm.mem_iff.2 hwins.mem) (fun g hg hbg y hy hyb => ?_) fun x hx hxb => ?_
      · have hyl := hperm.mem_iff.1 (mem_of_mem_group hg hy)
        have hrel := rel_of_mem_group h'.symm h'.trans hg hbg hy (Ne.symm hyb)
        have hlt := hwins.first y hyl hyb hrel
        rw [h.first best hwins.mem y hyl hrel, h.first y hyl best hwins.mem (h.symm best hwins.mem y hyl hrel)]
        exact ⟨decide_eq_true hlt.le, decide_eq_false hlt.not_ge⟩
      · have hxl := hperm.mem_iff.1 (mem_of_mem_groupHolders hx)
        have hleast : LeastOfClass rel key1 l x := fun y hy => h'.leastOfClass hx y (hperm.mem_iff.2 hy)
        have hrel : rel best x = false := by
          by_contra hrel
          rw [Bool.not_eq_false] at hrel
          exact (hwins.first x hxl hxb hrel).not_ge (hleast best hwins.mem (h.symm best hwins.mem x hxl hrel))
        have hlt := hwins.second x hxl hxb hrel hleast
        rw [h.second best hwins.mem x hxl, h.second x hxl best hwins.mem]
        exact ⟨decide_eq_true hlt, decide_eq_false hlt.not_gt⟩
    intro l' hperm
    rw [hall l' hperm, hall l (.refl l)]

end Classes

end Tarpan.Base
