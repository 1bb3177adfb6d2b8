/-
Socket addresses and their comparison (lib/sockunion.c). `sockunion_cmp` compares the pairs of
family and address number, so it orders the addresses totally.
-/
import Tarpan.Base.Words

namespace Tarpan.Lib

open Base

/-! ## Comparing octets -/

/-- `in6addr_cmp`, and `memcmp` over octets of one length: the first octets that differ decide. -/
def octetsCmp : List UInt8 → List UInt8 → Ordering
  | p1 :: ps1, p2 :: ps2 => if p1 > p2 then .gt else if p1 < p2 then .lt else octetsCmp ps1 ps2
  | _, _ => .eq

/-- Octets of one length compare as the numbers they spell. -/
theorem octetsCmp_eq_compare : ∀ {a b : List UInt8}, a.length = b.length → octetsCmp a b = compare (beVal a) (beVal b)
  | [], [], _ => rfl
  | p :: a, q :: b, h => by
    have hlen : a.length = b.length := Nat.succ.inj h
    have ha := beVal_lt a
    rw [hlen] at ha
    simp only [octetsCmp, beVal]
    rw [hlen, compare_scaled ha (beVal_lt b), octetsCmp_eq_compare hlen]
    rfl

/-! ## Addresses -/

/-- `struct in6_addr`. -/
structure In6Addr where
  octets : List UInt8
  length_eq : octets.length = 16
  deriving DecidableEq

/-- `union sockunion` of the two families a peer can have; an IPv4 address as its number. -/
inductive Sockunion where
  | sin (addr : UInt32)
  | sin6 (addr : In6Addr)
  deriving DecidableEq

/-- The numbers of `AF_INET` and `AF_INET6`. -/
def Sockunion.family : Sockunion → Nat
  | .sin _ => 2
  | .sin6 _ => 10

/-- `sockunion_cmp`; `.gt`, `.lt` and `.eq` for 1, -1 and 0. -/
def sockunionCmp (su1 su2 : Sockunion) : Ordering :=
  if su1.family > su2.family then .gt
  else if su1.family < su2.family then .lt
  else match su1, su2 with
    | .sin a1, .sin a2 => if a1 = a2 then .eq else if a1 > a2 then .gt else .lt
    | .sin6 a1, .sin6 a2 => octetsCmp a1.octets a2.octets
    | _, _ => .eq

def Sockunion.number : Sockunion → Nat
  | .sin addr => addr.toNat
  | .sin6 addr => beVal addr.octets

theorem Sockunion.ext_number {su1 su2 : Sockunion} (hf : su1.family = su2.family)
    (hn : su1.number = su2.number) : su1 = su2 := by
  match su1, su2 with
  | .sin a1, .sin a2 => exact congrArg _ (UInt32.toNat_inj.1 hn)
  | .sin6 ⟨o1, h1⟩, .sin6 ⟨o2, h2⟩ =>
    obtain rfl := beVal_injective (h1.trans h2.symm) hn
    rfl
  | .sin _, .sin6 _ => cases hf
  | .sin6 _, .sin _ => cases hf

/-- The family decides, then the number. -/
theorem sockunionCmp_eq (su1 su2 : Sockunion) : sockunionCmp su1 su2 =
    if su1.family > su2.family then .gt else if su1.family < su2.family then .lt
    else compare su1.number su2.number := by
  unfold sockunionCmp
  split_ifs with hgt hlt
  · rfl
  · rfl
  · match su1, su2 with
    | .sin a1, .sin a2 =>
      show (if a1 = a2 then Ordering.eq else if a1 > a2 then .gt else .lt) = compare a1.toNat a2.toNat
      rcases lt_trichotomy a1.toNat a2.toNat with h | h | h
      · rw [if_neg (fun he => by rw [he] at h; exact lt_irrefl _ h), if_neg (UInt32.not_lt.2 h.le),
          compare_lt_iff_lt.2 h]
      · rw [if_pos (UInt32.toNat_inj.1 h), compare_eq_iff_eq.2 h]
      · rw [if_neg (fun he => by rw [he] at h; exact lt_irrefl _ h), if_pos (UInt32.lt_iff_toNat_lt.2 h),
          compare_gt_iff_gt.2 h]
    | .sin6 a1, .sin6 a2 => exact octetsCmp_eq_compare (a1.length_eq.trans a2.length_eq.symm)
    | .sin _, .sin6 _ => exact absurd (show 2 < 10 by decide) hlt
    | .sin6 _, .sin _ => exact absurd (show 10 > 2 by decide) hgt

end Tarpan.Lib
