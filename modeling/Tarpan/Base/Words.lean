/-
Big-endian words: the bytes of a number, most significant first, and the number a run of bytes
spells. Both directions are defined for any width and are inverse to each other within it.
-/
import Mathlib.Data.List.Basic
import Mathlib.Tactic.Ring

namespace Tarpan.Base

/-- The low `n` bytes of `v`, most significant first. -/
def beBytes : Nat → Nat → List UInt8
  | 0, _ => []
  | n + 1, v => UInt8.ofNat (v / 256 ^ n) :: beBytes n v

/-- The number that `bs` spells, most significant byte first. -/
def beVal : List UInt8 → Nat
  | [] => 0
  | b :: bs => b.toNat * 256 ^ bs.length + beVal bs

@[simp] theorem beBytes_length : ∀ n v, (beBytes n v).length = n
  | 0, _ => rfl
  | n + 1, v => by simp [beBytes, beBytes_length n v]

theorem beVal_lt : ∀ bs : List UInt8, beVal bs < 256 ^ bs.length
  | [] => by simp [beVal]
  | b :: bs => by
    have ih := beVal_lt bs
    have hb : b.toNat + 1 ≤ 256 := b.toNat_lt
    calc beVal (b :: bs) < b.toNat * 256 ^ bs.length + 256 ^ bs.length := by
          simpa [beVal] using ih
      _ = (b.toNat + 1) * 256 ^ bs.length := by ring
      _ ≤ 256 * 256 ^ bs.length := Nat.mul_le_mul_right _ hb
      _ = 256 ^ (b :: bs).length := by rw [List.length_cons]; ring

/-- Reading back the bytes of `v` gives `v` modulo the width. -/
theorem beVal_beBytes_mod : ∀ n v, beVal (beBytes n v) = v % 256 ^ n
  | 0, v => by simp [beBytes, beVal, Nat.mod_one]
  | n + 1, v => by
    have ih := beVal_beBytes_mod n v
    have hsp : v % 256 ^ (n + 1) = v / 256 ^ n % 256 * 256 ^ n + v % 256 ^ n := by
      rw [pow_succ, Nat.mod_mul]
      ring
    simp [beBytes, beVal, ih, hsp]

theorem beVal_beBytes {n v : Nat} (h : v < 256 ^ n) : beVal (beBytes n v) = v := by
  rw [beVal_beBytes_mod, Nat.mod_eq_of_lt h]

/-! ## Comparison -/

/-- The leading digits decide, then what follows them. -/
theorem compare_scaled {p q x y n : Nat} (hx : x < n) (hy : y < n) :
    compare (p * n + x) (q * n + y) = if p > q then .gt else if p < q then .lt else compare x y := by
  rcases lt_trichotomy p q with hpq | rfl | hpq
  · have := Nat.mul_le_mul_right n hpq
    rw [Nat.succ_mul] at this
    rw [if_neg (by omega), if_pos hpq]
    exact compare_lt_iff_lt.2 (by omega)
  · rw [if_neg (lt_irrefl p), if_neg (lt_irrefl p)]
    rcases lt_trichotomy x y with h | rfl | h
    · rw [compare_lt_iff_lt.2 h]
      exact compare_lt_iff_lt.2 (by omega)
    · simp
    · rw [compare_gt_iff_gt.2 h]
      exact compare_gt_iff_gt.2 (by omega)
  · have := Nat.mul_le_mul_right n hpq
    rw [Nat.succ_mul] at this
    rw [if_pos hpq]
    exact compare_gt_iff_gt.2 (by omega)

theorem beVal_injective : ∀ {a b : List UInt8}, a.length = b.length → beVal a = beVal b → a = b
  | [], [], _, _ => rfl
  | p :: a, q :: b, h, heq => by
    have hlen : a.length = b.length := Nat.succ.inj h
    have ha := beVal_lt a
    rw [hlen] at ha
    have hcmp := compare_scaled (p := p.toNat) (q := q.toNat) ha (beVal_lt b)
    simp only [beVal, hlen] at heq
    rw [heq, compare_eq_iff_eq.2 rfl] at hcmp
    split_ifs at hcmp with h1 h2
    have hpq : p = q := UInt8.toNat_inj.1 (by omega)
    rw [hpq, beVal_injective hlen (compare_eq_iff_eq.1 hcmp.symm)]

theorem beBytes_ofNat (n : Nat) : beBytes 2 (UInt16.ofNat n).toNat = beBytes 2 n := by
  refine beVal_injective (by simp) ?_
  rw [beVal_beBytes_mod, beVal_beBytes_mod, UInt16.toNat_ofNat']
  omega

end Tarpan.Base
