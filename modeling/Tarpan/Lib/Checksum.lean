/-
The Fletcher checksum (lib/checksum.c). The sums of the octets are reduced modulo 255 once in a block, and `x` and `y`
are chosen such that both sums of the whole buffer come out as zero.
-/
import Mathlib.Tactic

namespace Tarpan.Lib

open List Option

/-! ## The code -/

/-- A sum of two `int`s, both of them not negative. One that exceeds the range is not defined. -/
def intAdd (a b : Nat) : Option Nat := if a + b < 2 ^ 31 then some (a + b) else none
def modx : Nat := 4102

/-- The loop over the octets of a block. -/
def fletcherBlock : List UInt8 → Nat → Nat → Option (Nat × Nat)
  | [], c0, c1 => some (c0, c1)
  | b :: p, c0, c1 => do
    let c0 ← intAdd c0 b.toNat
    let c1 ← intAdd c1 c0
    fletcherBlock p c0 c1

/-- The loop over the blocks. -/
def fletcherSums (p : List UInt8) (c0 c1 : Nat) : Option (Nat × Nat) :=
  if p = [] then some (c0, c1)
  else (fletcherBlock (p.take modx) c0 c1).bind fun c => fletcherSums (p.drop modx) (c.1 % 255) (c.2 % 255)
termination_by p.length
decreasing_by
  have := length_pos_iff.2 ‹p ≠ []›
  simp [modx]
  omega

def fletcherChecksumValidate : UInt16 := 0xffff

/-- `x` and `y`, where `n` is `len - offset - 1`. The difference is one of `size_t`, cast to `int`. -/
def checkOctets (n c0 c1 : Nat) : Nat × Nat :=
  let x := (Int.bmod (n * c0 - c1) (2 ^ 32)).tmod 255
  let x := if x ≤ 0 then x + 255 else x
  let y := 510 - c0 - x
  let y := if y > 255 then y - 255 else y
  (x.toNat, y.toNat)

/-- The checksum that is returned, and the buffer. `x` and `y` are only used where a checksum is generated. -/
def fletcherChecksum (htons : UInt16 → UInt16) (buffer : List UInt8) (offset : UInt16) : Option (UInt16 × List UInt8) :=
  if offset = fletcherChecksumValidate then
    (fletcherSums buffer 0 0).map fun (c0, c1) => (.ofNat (c1 * 256 + c0), buffer)
  else if offset.toNat < buffer.length - 1 then
    let buffer := (buffer.set offset.toNat 0).set (offset.toNat + 1) 0
    (fletcherSums buffer 0 0).map fun (c0, c1) =>
      let (x, y) := checkOctets (buffer.length - offset.toNat - 1) c0 c1
      (htons (.ofNat (x * 256 + y)), (buffer.set offset.toNat (.ofNat x)).set (offset.toNat + 1) (.ofNat y))
  else none

/-! ## The sums -/

def octetSum (p : List UInt8) : Nat := (p.map UInt8.toNat).sum

/-- Each octet as often as it is added to `c1`. -/
def weightedSum : List UInt8 → Nat
  | [] => 0
  | b :: p => b.toNat * (p.length + 1) + weightedSum p

theorem octetSum_append (p q : List UInt8) : octetSum (p ++ q) = octetSum p + octetSum q := by simp [octetSum]
theorem octetSum_cons (b : UInt8) (p : List UInt8) : octetSum (b :: p) = b.toNat + octetSum p := by simp [octetSum]

theorem weightedSum_append (p q : List UInt8) :
    weightedSum (p ++ q) = weightedSum p + q.length * octetSum p + weightedSum q := by
  induction p with
  | nil => simp [weightedSum, octetSum]
  | cons b p ih =>
    simp only [cons_append, weightedSum, ih, octetSum_cons, length_append]
    ring

theorem fletcherBlock_eq {p : List UInt8} {c0 c1 : Nat}
    (h : 2 * (c1 + p.length * c0) + 255 * (p.length * (p.length + 1)) < 2 ^ 32) :
    fletcherBlock p c0 c1 = some (c0 + octetSum p, c1 + p.length * c0 + weightedSum p) := by
  induction p generalizing c0 c1 with
  | nil => simp [fletcherBlock, octetSum, weightedSum]
  | cons b p ih =>
    have hb := b.toNat_lt
    rw [length_cons] at h
    have h0 : c0 + b.toNat < 2 ^ 31 := by nlinarith
    have h1 : c1 + (c0 + b.toNat) < 2 ^ 31 := by nlinarith
    rw [fletcherBlock, intAdd, if_pos h0, bind_eq_bind, bind_some, intAdd, if_pos h1, bind_some, ih (by nlinarith)]
    simp only [octetSum_cons, weightedSum, length_cons]
    congr 2
    · ring
    · ring

/-- The sums are below 255, and those of the whole buffer up to multiples of 255. -/
theorem fletcherSums_spec {p : List UInt8} {c0 c1 : Nat} (h0 : c0 < 255) (h1 : c1 < 255) :
    ∃ r0 r1, fletcherSums p c0 c1 = some (r0, r1) ∧ r0 < 255 ∧ r1 < 255 ∧
      (r0 : ZMod 255) = c0 + octetSum p ∧ (r1 : ZMod 255) = c1 + p.length * c0 + weightedSum p := by
  induction hn : p.length using Nat.strong_induction_on generalizing p c0 c1 with
  | _ n ih =>
    rw [fletcherSums]
    by_cases hp : p = []
    · subst hp
      exact ⟨c0, c1, by simp, h0, h1, by simp [octetSum], by simp [weightedSum, ← hn]⟩
    have hpos := length_pos_iff.2 hp
    have htake : (p.take modx).length ≤ 4102 := length_take_le ..
    have hblock := @fletcherBlock_eq (p.take modx) c0 c1 (by nlinarith)
    obtain ⟨r0, r1, hr, hr0, hr1, heq0, heq1⟩ := ih (p.drop modx).length (by simp [modx]; omega)
      (Nat.mod_lt (c0 + octetSum (p.take modx)) (by decide))
      (Nat.mod_lt (c1 + (p.take modx).length * c0 + weightedSum (p.take modx)) (by decide)) rfl
    refine ⟨r0, r1, ?_, hr0, hr1, ?_, ?_⟩
    · rw [if_neg hp, hblock, bind_some, hr]
    · rw [heq0, ← take_append_drop modx p, octetSum_append]
      push_cast [ZMod.natCast_mod]
      simp [add_assoc]
    · have hsp : n = (p.take modx).length + (p.drop modx).length := by
        rw [← length_append, take_append_drop, hn]
      have hw := weightedSum_append (p.take modx) (p.drop modx)
      rw [take_append_drop] at hw
      rw [heq1, hw, hsp]
      push_cast [ZMod.natCast_mod]
      ring

theorem checkOctets_spec {n c0 c1 : Nat} (hn : n ≤ 65535) (hc0 : c0 < 255) (hc1 : c1 < 255) :
    ∃ x y, checkOctets n c0 c1 = (x, y) ∧ (0 < x ∧ x < 256) ∧ (0 < y ∧ y < 256) ∧
      (255 : Int) ∣ x - (n * c0 - c1) ∧ (255 : Int) ∣ c0 + x + y := by
  have hbd := Nat.mul_le_mul hn hc0.le
  have hv : Int.bmod (n * c0 - c1) (2 ^ 32) = n * c0 - c1 := by
    rw [← Nat.cast_mul]
    exact Int.bmod_eq_of_le (by omega) (by omega)
  have hlt := Int.tmod_lt_of_pos (n * c0 - c1) (show (0 : Int) < 255 by decide)
  have hgt := Int.lt_tmod_of_pos (n * c0 - c1) (show (0 : Int) < 255 by decide)
  have hdiv := Int.mul_tdiv_add_tmod (n * c0 - c1) 255
  rw [checkOctets, hv]
  exact ⟨_, _, rfl, by omega, by omega, by omega, by omega⟩

theorem eq_zero_of_cast {c : Nat} (hc : c < 255) (h : (c : ZMod 255) = 0) : c = 0 :=
  Nat.eq_zero_of_dvd_of_lt ((ZMod.natCast_eq_zero_iff c 255).1 h) hc

/-- A buffer whose checksum has been generated is valid. Both octets that are stored differ from zero, nothing else
changes, and no sum leaves the range of `int`. -/
theorem fletcherChecksum_validates (htons : UInt16 → UInt16) (buffer : List UInt8) (offset : UInt16)
    (hlen : buffer.length ≤ 65535) (hoffset : offset.toNat + 1 < buffer.length) :
    ∃ checksum x y, x ≠ 0 ∧ y ≠ 0 ∧
      fletcherChecksum htons buffer offset = some (checksum, (buffer.set offset.toNat x).set (offset.toNat + 1) y) ∧
      fletcherChecksum htons ((buffer.set offset.toNat x).set (offset.toNat + 1) y) fletcherChecksumValidate =
        some (0, (buffer.set offset.toNat x).set (offset.toNat + 1) y) := by
  have hne : offset ≠ fletcherChecksumValidate := by
    rintro rfl
    exact absurd (hoffset.trans_le hlen) (by decide)
  generalize ho : offset.toNat = o at *
  obtain ⟨pre, a, b, post, rfl, rfl⟩ : ∃ pre a b post, buffer = pre ++ a :: b :: post ∧ pre.length = o :=
    ⟨buffer.take o, buffer[o], buffer[o + 1], buffer.drop (o + 2), by simp, by simp; omega⟩
  have hset : ∀ u v x y : UInt8,
      ((pre ++ u :: v :: post).set pre.length x).set (pre.length + 1) y = pre ++ x :: y :: post := by simp
  have hsub : (pre ++ 0 :: 0 :: post).length - pre.length - 1 = post.length + 1 := by simp
  obtain ⟨c0, c1, hsums, hc0, hc1, heq0, heq1⟩ := @fletcherSums_spec (pre ++ 0 :: 0 :: post) 0 0 (by decide) (by decide)
  obtain ⟨x, y, hxy, hx, hy, hdiff, hsum⟩ := @checkOctets_spec (post.length + 1) c0 c1
    (by rw [length_append, length_cons, length_cons] at hlen; omega) hc0 hc1
  obtain ⟨r0, r1, hsums', hr0, hr1, heq0', heq1'⟩ :=
    @fletcherSums_spec (pre ++ .ofNat x :: .ofNat y :: post) 0 0 (by decide) (by decide)
  have hnat : ∀ v, 0 < v ∧ v < 256 → (UInt8.ofNat v).toNat = v := fun v hv => UInt8.toNat_ofNat_of_lt' hv.2
  have hpos : ∀ v, 0 < v ∧ v < 256 → UInt8.ofNat v ≠ 0 := fun v hv h =>
    hv.1.ne ((congrArg UInt8.toNat h).symm.trans (hnat v hv))
  replace hdiff := (ZMod.intCast_zmod_eq_zero_iff_dvd _ 255).2 hdiff
  replace hsum := (ZMod.intCast_zmod_eq_zero_iff_dvd _ 255).2 hsum
  simp only [octetSum_append, octetSum_cons, weightedSum_append, weightedSum, hnat x hx, hnat y hy, length_cons]
    at heq0 heq1 heq0' heq1'
  push_cast at hdiff hsum heq0 heq1 heq0' heq1'
  have h0 : r0 = 0 := eq_zero_of_cast hr0 (by linear_combination heq0' - heq0 + hsum)
  have h1 : r1 = 0 := eq_zero_of_cast hr1 (by linear_combination heq1' - heq1 + hdiff + (post.length + 1) * hsum)
  refine ⟨htons (.ofNat (x * 256 + y)), .ofNat x, .ofNat y, hpos x hx, hpos y hy, ?_, ?_⟩
  · rw [fletcherChecksum, if_neg hne, ho, if_pos (by omega)]
    simp only [hset, hsums, map_some, hsub, hxy]
  · rw [hset, fletcherChecksum, if_pos rfl, hsums', h0, h1]
    rfl

/-- Six octets, with the checksum in their middle. -/
theorem fletcherChecksum_validates_six : ∃ x y, x ≠ 0 ∧ y ≠ 0 ∧
    (fletcherChecksum id [2, 1, 0, 0, 7, 255] 2).map Prod.snd = some [2, 1, x, y, 7, 255] ∧
    fletcherChecksum id [2, 1, x, y, 7, 255] fletcherChecksumValidate = some (0, [2, 1, x, y, 7, 255]) := by
  obtain ⟨_, x, y, hx, hy, hgenerated, hvalid⟩ :=
    fletcherChecksum_validates id [2, 1, 0, 0, 7, 255] 2 (by decide) (by decide)
  exact ⟨x, y, hx, hy, congrArg (Option.map Prod.snd) hgenerated, hvalid⟩

end Tarpan.Lib
