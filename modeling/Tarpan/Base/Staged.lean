/-
Comparison in stages: a first criterion, then a second one that applies to some pairs only, then a
last one that decides between any two. Such a comparison is not transitive, and a running choice by
it depends on the order of the list. `exists_choice` gives two conditions under which a choice in two
rounds does not: the second criterion applies throughout the elements that are best by the first, or
it applies there only inside the groups of the first round.
-/
import Tarpan.Base.Knockout
import Mathlib.Data.List.Lex
import Mathlib.Data.Prod.Lex

namespace Tarpan.Base

open List

/-! ## One stage -/

/-- What one criterion says: the smaller value is preferred, equal values say nothing. -/
def prefer {β : Type*} [LinearOrder β] (a b : β) : Option Bool :=
  if a < b then some true else if b < a then some false else none

section Prefer
variable {β : Type*} [LinearOrder β] {a b : β}

theorem prefer_of_lt (h : a < b) : prefer a b = some true := if_pos h

theorem prefer_of_gt (h : b < a) : prefer a b = some false := by
  rw [prefer, if_neg h.not_gt, if_pos h]

@[simp] theorem prefer_self (a : β) : prefer a a = none := by simp [prefer]

/-- Criteria that follow each other are one criterion on lists. -/
theorem prefer_cons (k l : List β) : prefer (a :: k) (b :: l) = (prefer a b <|> prefer k l) := by
  rcases lt_trichotomy a b with h | rfl | h
  · rw [prefer_of_lt h, prefer_of_lt (cons_lt_cons_iff.2 (.inl h))]
    rfl
  · rw [prefer_self]
    rcases lt_trichotomy k l with h | rfl | h
    · rw [prefer_of_lt h, prefer_of_lt (cons_lt_cons_iff.2 (.inr ⟨rfl, h⟩))]
      rfl
    · rw [prefer_self, prefer_self]
      rfl
    · rw [prefer_of_gt h, prefer_of_gt (cons_lt_cons_iff.2 (.inr ⟨rfl, h⟩))]
      rfl
  · rw [prefer_of_gt h, prefer_of_gt (cons_lt_cons_iff.2 (.inl h))]
    rfl

end Prefer

/-! ## Three stages -/

section Staged
variable {α β γ δ : Type*} [LinearOrder β] [LinearOrder γ] [LinearOrder δ]
  (head : α → β) (mid : α → γ) (tail : α → δ) (comp : α → α → Bool)

/-- The comparison in stages; `comp` says where the second one applies. -/
def stagedBeats (x y : α) : Bool :=
  (prefer (head x) (head y)
    <|> (if comp x y then prefer (mid x) (mid y) else none)
    <|> prefer (tail x) (tail y)).getD true

/-- The first one is preferred, whichever holds and whichever challenges. -/
def StagedWins (x y : α) : Prop :=
  stagedBeats head mid tail comp x y = true ∧ stagedBeats head mid tail comp y x = false

/-- All three stages as one key. -/
def fullKey (x : α) : β ×ₗ γ ×ₗ δ := toLex (head x, toLex (mid x, tail x))

/-- The key without the second stage. -/
def outerKey (x : α) : β ×ₗ δ := toLex (head x, tail x)

variable {head mid tail comp}

variable {x y : α}

theorem head_le_of_fullKey_le (h : fullKey head mid tail x ≤ fullKey head mid tail y) : head x ≤ head y := by
  rcases Prod.Lex.toLex_le_toLex.1 h with h | ⟨h, -⟩ <;> exact h.le

theorem head_le_of_outerKey_le (h : outerKey head tail x ≤ outerKey head tail y) : head x ≤ head y := by
  rcases Prod.Lex.toLex_le_toLex.1 h with h | ⟨h, -⟩ <;> exact h.le

theorem stagedBeats_of_head_lt (h : head x < head y) : StagedWins head mid tail comp x y := by
  unfold StagedWins stagedBeats
  rw [prefer_of_lt h, prefer_of_gt h]
  exact ⟨rfl, rfl⟩

theorem stagedBeats_of_fullKey_lt (hxy : comp x y = true) (hyx : comp y x = true)
    (h : fullKey head mid tail x < fullKey head mid tail y) : StagedWins head mid tail comp x y := by
  rcases Prod.Lex.toLex_lt_toLex.1 h with h | ⟨hhead, h⟩
  · exact stagedBeats_of_head_lt h
  have hhead : head x = head y := hhead
  unfold StagedWins stagedBeats
  rw [hxy, hyx, hhead, prefer_self]
  rcases Prod.Lex.toLex_lt_toLex.1 h with h | ⟨hmid, h⟩
  · have h : mid x < mid y := h
    rw [if_pos rfl, if_pos rfl, prefer_of_lt h, prefer_of_gt h]
    exact ⟨rfl, rfl⟩
  · have hmid : mid x = mid y := hmid
    have h : tail x < tail y := h
    rw [if_pos rfl, if_pos rfl, hmid, prefer_self, prefer_of_lt h, prefer_of_gt h]
    exact ⟨rfl, rfl⟩

/-- Where the second stage applies, the comparison is the order of the key; between equals the challenger wins. -/
theorem stagedBeats_eq_decide (hxy : comp x y = true) (hyx : comp y x = true) :
    stagedBeats head mid tail comp x y = decide (fullKey head mid tail x ≤ fullKey head mid tail y) := by
  rcases lt_trichotomy (fullKey head mid tail x) (fullKey head mid tail y) with h | h | h
  · rw [decide_eq_true h.le]
    exact (stagedBeats_of_fullKey_lt hxy hyx h).1
  · have hhead : head x = head y := congrArg (fun k => (ofLex k).1) h
    have hmid : mid x = mid y := congrArg (fun k => (ofLex (ofLex k).2).1) h
    have htail : tail x = tail y := congrArg (fun k => (ofLex (ofLex k).2).2) h
    rw [decide_eq_true h.le, stagedBeats, hhead, hmid, htail, prefer_self, prefer_self, prefer_self, ite_self]
    rfl
  · rw [decide_eq_false h.not_ge]
    exact (stagedBeats_of_fullKey_lt hyx hxy h).2

theorem stagedBeats_of_outerKey_lt (hxy : comp x y = false) (hyx : comp y x = false)
    (h : outerKey head tail x < outerKey head tail y) : StagedWins head mid tail comp x y := by
  rcases Prod.Lex.toLex_lt_toLex.1 h with h | ⟨hhead, h⟩
  · exact stagedBeats_of_head_lt h
  have hhead : head x = head y := hhead
  have h : tail x < tail y := h
  unfold StagedWins stagedBeats
  rw [hxy, hyx, hhead, prefer_self, prefer_of_lt h, prefer_of_gt h]
  exact ⟨rfl, rfl⟩

/-! ## Choices that do not depend on the order -/

variable (head mid tail comp) (rel : α → α → Bool)

/-- What is asked of the list: the groups are formed by a symmetric relation within which the second
stage applies, and the last stage tells any two elements apart. -/
structure StagedList (l : List α) : Prop where
  comp_symm : ∀ x ∈ l, ∀ y ∈ l, comp x y = comp y x
  rel_symm : ∀ x ∈ l, ∀ y ∈ l, rel x y = true → rel y x = true
  comp_of_rel : ∀ x ∈ l, ∀ y ∈ l, rel x y = true → comp x y = true
  tail_inj : ∀ x ∈ l, ∀ y ∈ l, tail x = tail y → x = y

/-- The element is among the best by the first stage. -/
def HeadLeast (l : List α) (x : α) : Prop := x ∈ l ∧ ∀ y ∈ l, head x ≤ head y

/-- The second stage applies between all elements that are best by the first. -/
def CompThroughout (l : List α) : Prop := ∀ x y, HeadLeast head l x → HeadLeast head l y → x ≠ y → comp x y = true

/-- The groups are classes, and among the elements best by the first stage the second stage applies
only inside them. -/
structure CompInGroups (l : List α) : Prop where
  trans : ∀ x ∈ l, ∀ y ∈ l, ∀ z ∈ l, rel x y = true → rel y z = true → rel x z = true
  within : ∀ x y, HeadLeast head l x → HeadLeast head l y → x ≠ y → comp x y = true → rel x y = true

/-- The element is the best of its class by all three stages. -/
def ClassBest (l : List α) (x : α) : Prop :=
  x ∈ l ∧ ∀ y ∈ l, y ≠ x → rel x y = true → fullKey head mid tail x < fullKey head mid tail y

variable {head mid tail comp rel} {l : List α}

theorem exists_least {κ : Type*} [LinearOrder κ] (key : α → κ) {p : α → Prop} (h : ∃ x ∈ l, p x) :
    ∃ w ∈ l, p w ∧ ∀ y ∈ l, p y → key w ≤ key y := by
  classical
  obtain ⟨x, hx, hpx⟩ := h
  have hne : l.filter (p ·) ≠ [] := ne_nil_of_mem (mem_filter.2 ⟨hx, decide_eq_true hpx⟩)
  obtain ⟨w, hw⟩ := Option.ne_none_iff_exists'.1 (mt (argmin_eq_none (f := key)).1 hne)
  obtain ⟨hwl, hwp⟩ := mem_filter.1 (argmin_mem hw)
  refine ⟨w, hwl, of_decide_eq_true hwp, fun y hy hpy => ?_⟩
  exact le_of_mem_argmin (mem_filter.2 ⟨hy, decide_eq_true hpy⟩) hw

variable (hl : StagedList tail comp rel l)
include hl

theorem StagedList.fullKey_lt (hx : x ∈ l) (hy : y ∈ l) (hne : y ≠ x)
    (hle : fullKey head mid tail x ≤ fullKey head mid tail y) : fullKey head mid tail x < fullKey head mid tail y := by
  refine lt_of_le_of_ne hle fun heq => hne (hl.tail_inj y hy x hx ?_)
  exact (congrArg (fun k => (ofLex (ofLex k).2).2) heq).symm

theorem StagedList.outerKey_lt (hx : x ∈ l) (hy : y ∈ l) (hne : y ≠ x)
    (hle : outerKey head tail x ≤ outerKey head tail y) : outerKey head tail x < outerKey head tail y := by
  refine lt_of_le_of_ne hle fun heq => hne (hl.tail_inj y hy x hx ?_)
  exact (congrArg (fun k => (ofLex k).2) heq).symm

/-- Where the second stage applies throughout, one element beats all others. -/
theorem exists_dominates (mid : α → γ) (hne : l ≠ []) (h : CompThroughout head comp l) :
    ∃ w ∈ l, Dominates (stagedBeats head mid tail comp) w l := by
  obtain ⟨x, hx⟩ := exists_mem_of_ne_nil l hne
  obtain ⟨w, hw, -, hleast⟩ := exists_least (p := fun _ => True) (fullKey head mid tail) ⟨x, hx, trivial⟩
  have hwhead : HeadLeast head l w := ⟨hw, fun y hy => head_le_of_fullKey_le (hleast y hy trivial)⟩
  refine ⟨w, hw, fun y hy hyw => ?_⟩
  rcases (hwhead.2 y hy).lt_or_eq with hlt | heq
  · exact stagedBeats_of_head_lt hlt
  have hyhead : HeadLeast head l y := ⟨hy, fun z hz => heq ▸ hwhead.2 z hz⟩
  have hcomp := h w y hwhead hyhead hyw.symm
  refine stagedBeats_of_fullKey_lt hcomp ?_ (hl.fullKey_lt hw hy hyw (hleast y hy trivial))
  rw [hl.comp_symm y hy w hw]
  exact hcomp

theorem exists_classBest_headLeast (head : α → β) (mid : α → γ) (hne : l ≠ []) :
    ∃ z ∈ l, ClassBest head mid tail rel l z ∧ ∀ y ∈ l, head z ≤ head y := by
  obtain ⟨x, hx⟩ := exists_mem_of_ne_nil l hne
  obtain ⟨z, hz, -, hleast⟩ := exists_least (p := fun _ => True) (fullKey head mid tail) ⟨x, hx, trivial⟩
  refine ⟨z, hz, ⟨hz, fun y hy hyz _ => ?_⟩, fun y hy => head_le_of_fullKey_le (hleast y hy trivial)⟩
  exact hl.fullKey_lt hz hy hyz (hleast y hy trivial)

theorem stagedBeats_of_classBest (hx : ClassBest head mid tail rel l x)
    (hy : y ∈ l) (hne : y ≠ x) (hrel : rel x y = true) : StagedWins head mid tail comp x y := by
  have hcomp := hl.comp_of_rel x hx.1 y hy hrel
  refine stagedBeats_of_fullKey_lt hcomp ?_ (hx.2 y hy hne hrel)
  rw [hl.comp_symm y hy x hx.1]
  exact hcomp

variable {l' : List α}

/-- Where the groups are classes, the holders of the groups are the best of their classes. -/
theorem classBest_of_mem_groupHolders (hgroups : CompInGroups head comp rel l)
    (hperm : l'.Perm l) (hx : x ∈ groupHolders rel (stagedBeats head mid tail comp) l') :
    ClassBest head mid tail rel l x := by
  obtain ⟨g, hg, hk⟩ := mem_groupHolders.1 hx
  have hmem : ∀ y ∈ g, y ∈ l := fun y hy => hperm.mem_iff.1 (mem_of_mem_group hg hy)
  have hsymm : ∀ a ∈ l', ∀ b ∈ l', rel a b = true → rel b a = true := fun a ha b hb =>
    hl.rel_symm a (hperm.mem_iff.1 ha) b (hperm.mem_iff.1 hb)
  have htrans : ∀ a ∈ l', ∀ b ∈ l', ∀ c ∈ l', rel a b = true → rel b c = true → rel a c = true :=
    fun a ha b hb c hc => hgroups.trans a (hperm.mem_iff.1 ha) b (hperm.mem_iff.1 hb) c (hperm.mem_iff.1 hc)
  -- the least element of the group beats the rest of it, so it is the holder
  obtain ⟨v, hv, -, hleast⟩ := exists_least (p := fun _ => True) (fullKey head mid tail) ⟨x, knockout_mem hk, trivial⟩
  have hbest : ClassBest head mid tail rel l v := by
    refine ⟨hmem v hv, fun y hy hyv hrel => hl.fullKey_lt (hmem v hv) hy hyv (hleast y ?_ trivial)⟩
    exact mem_group_of_rel hsymm htrans hg hv (hperm.mem_iff.2 hy) hrel
  have hdom : Dominates (stagedBeats head mid tail comp) v g := fun y hy hyv =>
    stagedBeats_of_classBest hl hbest (hmem y hy) hyv (rel_of_mem_group hsymm htrans hg hv hy hyv.symm)
  rw [knockout_eq_of_dominates hv hdom] at hk
  obtain rfl := Option.some.inj hk
  exact hbest

/-- Among the best of the classes, one beats all others. -/
theorem exists_classBest_dominates (mid : α → γ) (hne : l ≠ [])
    (hgroups : CompInGroups head comp rel l) :
    ∃ w, ClassBest head mid tail rel l w ∧ ∀ x, ClassBest head mid tail rel l x → x ≠ w →
      StagedWins head mid tail comp w x := by
  obtain ⟨z, hz, hzbest, hzleast⟩ := exists_classBest_headLeast hl head mid hne
  obtain ⟨w, hw, hwbest, hleast⟩ := exists_least (outerKey head tail) ⟨z, hz, hzbest⟩
  have hwhead : ∀ y ∈ l, head w ≤ head y := fun y hy =>
    (head_le_of_outerKey_le (hleast z hz hzbest)).trans (hzleast y hy)
  refine ⟨w, hwbest, fun x hx hxw => ?_⟩
  rcases (hwhead x hx.1).lt_or_eq with hlt | heq
  · exact stagedBeats_of_head_lt hlt
  cases hcomp : comp w x with
  | true =>
    have hxhead : HeadLeast head l x := ⟨hx.1, fun y hy => heq ▸ hwhead y hy⟩
    exact stagedBeats_of_classBest hl hwbest hx.1 hxw (hgroups.within w x ⟨hw, hwhead⟩ hxhead hxw.symm hcomp)
  | false =>
    refine stagedBeats_of_outerKey_lt hcomp ?_ (hl.outerKey_lt hw hx.1 hxw (hleast x hx.1 hx))
    rw [hl.comp_symm x hx.1 w hw]
    exact hcomp

/-- Under either condition a choice in two rounds does not depend on the order of the list. -/
theorem exists_choice [DecidableEq α] (mid : α → γ) (hne : l ≠ [])
    (h : CompThroughout head comp l ∨ CompInGroups head comp rel l) : ∃ w, ∀ l', l'.Perm l →
      twoRounds rel (stagedBeats head mid tail comp) (stagedBeats head mid tail comp) l' = some w := by
  rcases h with h | h
  · obtain ⟨w, hw, hdom⟩ := exists_dominates hl mid hne h
    refine ⟨w, fun l' hperm => twoRounds_eq (hperm.mem_iff.2 hw) (fun g hg _ x hx => ?_) fun x hx => ?_⟩
    · exact hdom x (hperm.mem_iff.1 (mem_of_mem_group hg hx))
    · exact hdom x (hperm.mem_iff.1 (mem_of_mem_groupHolders hx))
  · obtain ⟨w, hw, hdom⟩ := exists_classBest_dominates hl mid hne h
    refine ⟨w, fun l' hperm => twoRounds_eq (hperm.mem_iff.2 hw.1) (fun g hg hwg x hx hxw => ?_) fun x hx hxw => ?_⟩
    · have hrel : rel w x = true := by
        refine rel_of_mem_group (l := l') (fun a ha b hb => ?_) (fun a ha b hb c hc => ?_) hg hwg hx hxw.symm
        · exact hl.rel_symm a (hperm.mem_iff.1 ha) b (hperm.mem_iff.1 hb)
        · exact h.trans a (hperm.mem_iff.1 ha) b (hperm.mem_iff.1 hb) c (hperm.mem_iff.1 hc)
      exact stagedBeats_of_classBest hl hw (hperm.mem_iff.1 (mem_of_mem_group hg hx)) hxw hrel
    · exact hdom x (classBest_of_mem_groupHolders hl h hperm hx) hxw

end Staged

end Tarpan.Base
