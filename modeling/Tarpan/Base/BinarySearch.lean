/-
Binary search in an array, by the sign of a comparison at each index, with the bounds as the signed numbers they are in
C.
-/
import Mathlib.Data.Int.Order.Basic

namespace Tarpan.Base

variable {c : Nat → Int} {n : Nat}

/-- Where the search ends: at a match, or at the place of an insertion. -/
inductive SearchResult where
  | found (i : Nat)
  | missing (n : Nat)
  deriving DecidableEq, Repr

/-- The loop over the bounds `p` and `g`, which is entered once at least. -/
def binarySearch (c : Nat → Int) : Nat → Int → Int → SearchResult
  | 0, p, _ => .missing p.toNat
  | fuel + 1, p, g =>
    let m := (p + g) / 2
    if c m.toNat = 0 then .found m.toNat
    else if c m.toNat < 0 then
      if p ≤ m - 1 then binarySearch c fuel p (m - 1) else .missing p.toNat
    else if m + 1 ≤ g then binarySearch c fuel (m + 1) g
    else .missing (m + 1).toNat

/-- What comes before something that is not larger than the key is smaller than the key. -/
def Ascending (c : Nat → Int) (n : Nat) : Prop := ∀ i j, i < j → j < n → 0 ≤ c j → 0 < c i

/-- The key is at the index, or it would stand between what is before the index and what follows. -/
def SearchResult.Right (c : Nat → Int) (n : Nat) : SearchResult → Prop
  | .found i => i < n ∧ c i = 0
  | .missing k => k ≤ n ∧ (∀ i < k, 0 < c i) ∧ ∀ i, k ≤ i → i < n → c i < 0

theorem binarySearch_right (h : Ascending c n) : ∀ {fuel : Nat} {p g : Int}, 0 ≤ p → p ≤ g → g < n →
    (∀ i : Nat, (i : Int) < p → 0 < c i) → (∀ i : Nat, g < i → i < n → c i < 0) → g - p < fuel →
    (binarySearch c fuel p g).Right c n
  | 0, p, g, _, hpg, _, _, _, hfuel => by omega
  | fuel + 1, p, g, hp, hpg, hg, hbelow, habove, hfuel => by
    rw [binarySearch]
    obtain ⟨m, hm⟩ : ∃ m : Nat, (p + g) / 2 = m := ⟨((p + g) / 2).toNat, by omega⟩
    have hmn : m < n := by omega
    simp only [hm, Int.toNat_natCast]
    by_cases hzero : c m = 0
    · rw [if_pos hzero]
      exact ⟨hmn, hzero⟩
    rw [if_neg hzero]
    by_cases hneg : c m < 0
    · -- the key is before the middle
      have habove' : ∀ i : Nat, (m : Int) - 1 < i → i < n → c i < 0 := by
        intro i hi hin
        rcases Nat.lt_or_eq_of_le (show m ≤ i by omega) with hmi | rfl
        · exact Int.not_le.1 fun hle => absurd (h m i hmi hin hle) (by omega)
        · exact hneg
      rw [if_pos hneg]
      split_ifs with hgo
      · exact binarySearch_right h hp hgo (by omega) hbelow habove' (by omega)
      · exact ⟨by omega, fun i hi => hbelow i (by omega), fun i hi hin => habove' i (by omega) hin⟩
    · -- the key is behind the middle
      have hpos : 0 < c m := by omega
      have hbelow' : ∀ i : Nat, (i : Int) < m + 1 → 0 < c i := by
        intro i hi
        rcases Nat.lt_or_eq_of_le (show i ≤ m by omega) with him | rfl
        · exact h i m him hmn (by omega)
        · exact hpos
      rw [if_neg hneg]
      split_ifs with hgo
      · exact binarySearch_right h (by omega) hgo hg hbelow' habove (by omega)
      · exact ⟨by omega, fun i hi => hbelow' i (by omega), fun i hi hin => habove i (by omega) hin⟩

end Tarpan.Base
