/-
Bit strings and the tree they form: a string lies above those that it is a prefix of, on the side that the next bit
says. The lexicographic order of strings is the order in which a walk through the tree meets them, a string first, then
what lies on its left side, then what lies on its right.
-/
import Mathlib.Data.List.Lex
import Mathlib.Order.BooleanAlgebra.Basic

namespace Tarpan.Base

open List

section Prefix
variable {α : Type} {u w x y : List α} {a b : α}

/-- The string `x` lies below `u` on the side `a`. -/
theorem prefix_of_side (h : u ++ [a] <+: x) : u <+: x := (prefix_append u [a]).trans h

theorem length_lt_of_side (h : u ++ [a] <+: x) : u.length < x.length := by
  have := h.length_le
  rw [length_append] at this
  exact this

theorem ne_of_side (h : u ++ [a] <+: x) : u ≠ x := by
  rintro rfl
  exact absurd (length_lt_of_side h) (Nat.lt_irrefl _)

theorem exists_side (h : u <+: x) (hne : u ≠ x) : ∃ a, u ++ [a] <+: x := by
  obtain ⟨t, rfl⟩ := h
  cases t with
  | nil => exact absurd (append_nil u).symm hne
  | cons a t => exact ⟨a, t, by rw [append_assoc, singleton_append]⟩

theorem side_unique (h : u ++ [a] <+: x) (h' : u ++ [b] <+: x) : a = b := by
  have := (prefix_of_prefix_length_le h h' (by simp)).eq_of_length (by simp)
  exact singleton_inj.1 (append_cancel_left this)

/-- What lies above both of two strings that part at `u` lies above `u`. -/
theorem prefix_of_parted (hx : u ++ [a] <+: x) (hy : u ++ [b] <+: y) (hab : a ≠ b) (hwx : w <+: x) (hwy : w <+: y) :
    w <+: u := by
  by_contra hnot
  have hlen : u.length < w.length := by
    by_contra hle
    exact hnot (prefix_of_prefix_length_le hwx (prefix_of_side hx) (Nat.not_lt.1 hle))
  have hside : ∀ {c z}, u ++ [c] <+: z → w <+: z → u ++ [c] <+: w := fun hz hwz =>
    prefix_of_prefix_length_le hz hwz (by rw [length_append]; exact hlen)
  exact hab (side_unique (hside hx hwx) (hside hy hwy))

/-- Two strings of which none lies above the other part somewhere. -/
theorem exists_parted : ∀ {x y : List α}, ¬ x <+: y → ¬ y <+: x → ∃ u a b, u ++ [a] <+: x ∧ u ++ [b] <+: y ∧ a ≠ b
  | [], y, h, _ => absurd nil_prefix h
  | _ :: _, [], _, h => absurd nil_prefix h
  | c :: x, d :: y, hx, hy => by
    by_cases hcd : c = d
    · subst hcd
      rw [cons_prefix_cons] at hx hy
      obtain ⟨u, a, b, hux, huy, hab⟩ := exists_parted (fun h => hx ⟨rfl, h⟩) fun h => hy ⟨rfl, h⟩
      refine ⟨c :: u, a, b, ?_, ?_, hab⟩
      · exact cons_prefix_cons.2 ⟨rfl, hux⟩
      · exact cons_prefix_cons.2 ⟨rfl, huy⟩
    · refine ⟨[], c, d, ?_, ?_, hcd⟩
      · exact prefix_append [c] x
      · exact prefix_append [d] y

end Prefix

/-! ## The order of a walk -/

section Order
variable {u x y z : List Bool}

theorem lt_of_isPrefix (h : x <+: y) (hne : x ≠ y) : x < y := by
  obtain ⟨t, rfl⟩ := h
  cases t with
  | nil => exact absurd (append_nil x).symm hne
  | cons a t =>
    clear hne
    induction x with
    | nil => exact nil_lt_cons a t
    | cons b x ih => exact cons_lt_cons_iff.2 (.inr ⟨rfl, ih⟩)

theorem le_of_isPrefix (h : x <+: y) : x ≤ y := by
  by_cases hne : x = y
  · exact le_of_eq hne
  · exact le_of_lt (lt_of_isPrefix h hne)

/-- The left side comes before the right one. -/
theorem lt_of_sides (hx : u ++ [false] <+: x) (hy : u ++ [true] <+: y) : x < y := by
  obtain ⟨s, rfl⟩ := hx
  obtain ⟨t, rfl⟩ := hy
  induction u with
  | nil => exact cons_lt_cons_iff.2 (.inl Bool.false_lt_true)
  | cons b u ih => exact cons_lt_cons_iff.2 (.inr ⟨rfl, ih⟩)

/-- A string comes before another where it lies above it, or on the left where they part. -/
theorem lt_iff : x < y ↔ (x <+: y ∧ x ≠ y) ∨ ∃ u, u ++ [false] <+: x ∧ u ++ [true] <+: y := by
  constructor
  · intro hlt
    by_cases hxy : x <+: y
    · exact .inl ⟨hxy, ne_of_lt hlt⟩
    by_cases hyx : y <+: x
    · exact absurd (le_of_isPrefix hyx) (not_le_of_gt hlt)
    obtain ⟨u, a, b, hux, huy, hab⟩ := exists_parted hxy hyx
    cases a <;> cases b
    · exact absurd rfl hab
    · exact .inr ⟨u, hux, huy⟩
    · exact absurd (lt_of_sides huy hux) (not_lt_of_gt hlt)
    · exact absurd rfl hab
  · rintro (⟨hxy, hne⟩ | ⟨u, hux, huy⟩)
    · exact lt_of_isPrefix hxy hne
    · exact lt_of_sides hux huy

/-- What lies below `u` comes together: a string that lies elsewhere comes before all of it or after all of it. -/
theorem lt_of_below (hux : u <+: x) (huz : ¬ u <+: z) (h : u < z) : x < z := by
  rcases lt_iff.1 h with ⟨hp, -⟩ | ⟨w, hwu, hwz⟩
  · exact absurd hp huz
  · exact lt_of_sides (hwu.trans hux) hwz

end Order

end Tarpan.Base
