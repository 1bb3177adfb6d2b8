/-
The last one of the least elements of a list, as a loop finds it that keeps the best one so far and takes a new one
unless it is worse.
-/
import Mathlib.Order.Lattice
import Mathlib.Data.List.Induction

namespace Tarpan.Base

open List

variable {α κ : Type} [LinearOrder κ] {rank : α → κ} {l : List α} {a m : α}

/-- The new element, unless the old one ranks before it. -/
def laterMin (rank : α → κ) (best a : α) : α := if rank a ≤ rank best then a else best
def takeMin (rank : α → κ) (best : Option α) (a : α) : Option α := some (best.elim a (laterMin rank · a))
def lastMin (rank : α → κ) (l : List α) : Option α := l.foldl (takeMin rank) none

/-- An element of the list that none ranks before, and that ranks before all that follow it. -/
def IsLastMin (rank : α → κ) (l : List α) (m : α) : Prop :=
  ∃ l1 l2, l = l1 ++ m :: l2 ∧ (∀ a ∈ l1, rank m ≤ rank a) ∧ ∀ a ∈ l2, rank m < rank a

theorem lastMin_concat : lastMin rank (l ++ [a]) = takeMin rank (lastMin rank l) a := by
  rw [lastMin, foldl_append]
  rfl

theorem IsLastMin.concat (h : IsLastMin rank l m) (a : α) : IsLastMin rank (l ++ [a]) (laterMin rank m a) := by
  obtain ⟨l1, l2, rfl, hbef, hafter⟩ := h
  rw [laterMin]
  split_ifs with ha
  · refine ⟨l1 ++ m :: l2, [], rfl, fun b hb => ha.trans ?_, by simp⟩
    rcases mem_append.1 hb with hb | hb
    · exact hbef b hb
    rcases mem_cons.1 hb with rfl | hb
    · exact le_rfl
    · exact (hafter b hb).le
  · refine ⟨l1, l2 ++ [a], by simp, hbef, fun b hb => ?_⟩
    rcases mem_append.1 hb with hb | hb
    · exact hafter b hb
    · rw [mem_singleton.1 hb]
      exact not_le.1 ha

/-- The loop finds the last of the least elements, if there is one. -/
theorem lastMin_spec (rank : α → κ) (l : List α) :
    (lastMin rank l = none ∧ l = []) ∨ ∃ m, lastMin rank l = some m ∧ IsLastMin rank l m := by
  induction l using reverseRecOn with
  | nil => exact .inl ⟨rfl, rfl⟩
  | append_singleton l a ih =>
    right
    rw [lastMin_concat]
    rcases ih with ⟨hnone, rfl⟩ | ⟨m, hm, hmin⟩
    · exact ⟨a, rfl, [], [], rfl, by simp, by simp⟩
    · rw [hm]
      exact ⟨_, rfl, hmin.concat a⟩

theorem IsLastMin.mem (h : IsLastMin rank l m) : m ∈ l := by
  obtain ⟨l1, l2, rfl, -⟩ := h
  simp

theorem IsLastMin.unique (h : IsLastMin rank l m) (h' : IsLastMin rank l a) : m = a := by
  obtain ⟨l1, l2, rfl, hbef, hafter⟩ := h
  obtain ⟨k1, k2, hl, hbef', hafter'⟩ := h'
  rcases append_eq_append_iff.1 hl with ⟨d, hk1, hd⟩ | ⟨d, hl1, hd⟩
  · cases d with
    | nil => exact (cons.inj hd).1
    | cons e d =>
      obtain ⟨rfl, rfl⟩ := cons.inj hd
      exact absurd (hbef' m (by simp [hk1])) (not_le.2 (hafter a (by simp)))
  · cases d with
    | nil => exact (cons.inj hd).1.symm
    | cons e d =>
      obtain ⟨rfl, rfl⟩ := cons.inj hd
      exact absurd (hbef a (by simp [hl1])) (not_le.2 (hafter' m (by simp)))

theorem lastMin_eq_some_iff : lastMin rank l = some m ↔ IsLastMin rank l m := by
  rcases lastMin_spec rank l with ⟨hnone, rfl⟩ | ⟨m', hm', hmin⟩
  · rw [hnone]
    exact iff_of_false (by simp) fun h => absurd h.mem not_mem_nil
  · rw [hm', Option.some_inj]
    exact ⟨fun heq => heq ▸ hmin, hmin.unique⟩

end Tarpan.Base
