/-
The bits of a prefix and the functions that go by them (`prefix_bit` and `prefix_match` of lib/prefix.c, `route_common`
of lib/table.c). The functions work on octets with masks; here they are brought down to the string of the first
`prefixlen` bits.
-/
import Tarpan.Base.BitString
import Tarpan.Lib.Prefix
import Mathlib.Data.List.GetD
import Mathlib.Tactic.IntervalCases

namespace Tarpan.Lib

open Base List Prefix
open UInt8 (le_iff_toNat_le lt_iff_toNat_lt ofNat toNat_and toNat_inj toNat_ofNat')

/-! ## Octets -/

/-- The bits of an octet, the most significant one at 0. -/
def octetBit (c : UInt8) (j : Nat) : Bool := c.toNat.testBit (7 - j)
def maskbit (shift : Nat) : UInt8 := [0x00, 0x80, 0xc0, 0xe0, 0xf0, 0xf8, 0xfc, 0xfe, 0xff].getD shift 0

theorem octetBit_xor (a b : UInt8) (j : Nat) : octetBit (a ^^^ b) j = (octetBit a j ^^ octetBit b j) := by
  rw [octetBit, UInt8.toNat_xor, Nat.testBit_xor]
  rfl

theorem octetBit_and (a b : UInt8) (j : Nat) : octetBit (a &&& b) j = (octetBit a j && octetBit b j) := by
  rw [octetBit, toNat_and, Nat.testBit_and]
  rfl

variable {a b : UInt8}

theorem octet_ext (h : ∀ j < 8, octetBit a j = octetBit b j) : a = b := by
  refine toNat_inj.1 (Nat.eq_of_testBit_eq fun i => ?_)
  by_cases hi : i < 8
  · have := h (7 - i) (by omega)
    rwa [octetBit, octetBit, Nat.sub_sub_self (by omega)] at this
  have hbig : ∀ c : UInt8, c.toNat < 2 ^ i := fun c =>
    Nat.lt_of_lt_of_le c.toNat_lt (Nat.pow_le_pow_right (by decide) (by omega))
  rw [Nat.testBit_lt_two_pow (hbig a), Nat.testBit_lt_two_pow (hbig b)]

theorem octetBit_zero (j : Nat) : octetBit 0 j = false := Nat.zero_testBit _

theorem octetBit_maskbit {s j : Nat} (hs : s ≤ 8) (hj : j < 8) : octetBit (maskbit s) j = decide (j < s) := by
  interval_cases s <;> interval_cases j <;> rfl

theorem and_xor_eq_zero_iff {m : UInt8} {P : Nat → Prop} [DecidablePred P] (hm : ∀ j < 8, octetBit m j = decide (P j)) :
    m &&& (a ^^^ b) = 0 ↔ ∀ j < 8, P j → octetBit a j = octetBit b j := by
  have hbit : ∀ j < 8, octetBit (m &&& (a ^^^ b)) j = (decide (P j) && (octetBit a j ^^ octetBit b j)) := by
    intro j hj
    rw [octetBit_and, octetBit_xor, hm j hj]
  constructor
  · intro h j hj hp
    have := hbit j hj
    rw [h, octetBit_zero, decide_eq_true hp] at this
    simpa using this.symm
  · intro h
    refine octet_ext fun j hj => ?_
    rw [hbit j hj, octetBit_zero]
    by_cases hp : P j
    · rw [h j hj hp, Bool.xor_self, Bool.and_false]
    · rw [decide_eq_false hp, Bool.false_and]

variable {k i j m : Nat}

/-- The mask of one bit that `route_common` shifts along. -/
theorem octetBit_shifted (hk : k < 8) (hj : j < 8) : octetBit (0x80 >>> ofNat k) j = decide (j = k) := by
  interval_cases k <;> interval_cases j <;> rfl

theorem shifted_and_eq_zero_iff (hk : k < 8) : (0x80 >>> ofNat k) &&& (a ^^^ b) = 0 ↔ octetBit a k = octetBit b k := by
  rw [and_xor_eq_zero_iff fun _ => octetBit_shifted hk]
  exact ⟨fun h => h k hk rfl, fun h j _ hj => hj ▸ h⟩

/-! ## Prefixes -/

/-- The bit `i` of octets. -/
def bitAt (octets : List UInt8) (i : Nat) : Bool := octetBit (octets.getD (i / 8) 0) (i % 8)

theorem bitAt_eq {octets : List UInt8} (hj : j < 8) : bitAt octets (8 * i + j) = octetBit (octets.getD i 0) j := by
  rw [bitAt, show (8 * i + j) / 8 = i by omega, show (8 * i + j) % 8 = j by omega]

def prefixBit (octets : List UInt8) (prefixlen : UInt8) : Bool :=
  octets.getD (prefixlen.toNat / 8) 0 >>> ofNat (7 - prefixlen.toNat % 8) &&& 1 != 0

theorem shift_and_one (c : UInt8) (hk : k < 8) : (c >>> ofNat (7 - k) &&& 1 != 0) = octetBit c k := by
  have hmod : (7 - k) % 256 % 8 = 7 - k := by omega
  have hval : (c >>> ofNat (7 - k) &&& 1).toNat = (c.toNat >>> (7 - k)) % 2 := by
    rw [toNat_and, UInt8.toNat_shiftRight, toNat_ofNat', hmod]
    exact Nat.and_one_is_mod _
  have hne : (c >>> ofNat (7 - k) &&& 1 != 0) = decide ((c.toNat >>> (7 - k)) % 2 ≠ 0) := by
    rw [← hval]
    rw [Bool.eq_iff_iff, bne_iff_ne, decide_eq_true_iff, Ne, Ne, ← toNat_inj]
    rfl
  rw [hne, octetBit, Nat.testBit]
  rw [Bool.eq_iff_iff, decide_eq_true_iff, bne_iff_ne, Nat.and_comm, Nat.and_one_is_mod]

theorem prefixBit_eq (octets : List UInt8) (prefixlen : UInt8) :
    prefixBit octets prefixlen = bitAt octets prefixlen.toNat :=
  shift_and_one _ (Nat.mod_lt _ (by decide))

section Prefixes
variable {afi : Afi} {q : Prefix afi}

namespace Prefix

def bits (p : Prefix afi) : List Bool := (range p.prefixlen.toNat).map (bitAt p.octets)

@[simp] theorem bits_length (p : Prefix afi) : p.bits.length = p.prefixlen.toNat := by
  rw [bits, length_map, length_range]

def Masked (p : Prefix afi) : Prop := ∀ i < 8 * afi.octets, p.prefixlen.toNat ≤ i → bitAt p.octets i = false

instance (p : Prefix afi) : Decidable p.Masked := inferInstanceAs (Decidable (∀ _ < _, _))

variable {p n : Prefix afi}

theorem bits_getElem (h : i < p.bits.length) : p.bits[i] = bitAt p.octets i := by
  simp [bits]

/-- One string is a prefix of the other where the bits agree. -/
theorem bits_prefix_iff :
    n.bits <+: p.bits ↔ n.prefixlen ≤ p.prefixlen ∧ ∀ i < n.prefixlen.toNat, bitAt n.octets i = bitAt p.octets i := by
  rw [le_iff_toNat_le]
  constructor
  · intro h
    have hle := h.length_le
    rw [bits_length, bits_length] at hle
    refine ⟨hle, fun i hi => ?_⟩
    have hn : i < n.bits.length := by rwa [bits_length]
    rw [← bits_getElem hn, ← bits_getElem (hn.trans_le h.length_le)]
    exact h.getElem hn
  · rintro ⟨hle, hbits⟩
    rw [prefix_iff_eq_take]
    refine ext_getElem (by simpa using hle) fun i h1 h2 => ?_
    rw [bits_length] at h1
    rw [getElem_take, bits_getElem, bits_getElem]
    exact hbits i h1

theorem side_of_bit (h : n.bits <+: p.bits) (hlt : n.prefixlen < p.prefixlen) :
    n.bits ++ [prefixBit p.octets n.prefixlen] <+: p.bits := by
  have hne : n.bits ≠ p.bits := by
    intro heq
    have := congrArg length heq
    rw [bits_length, bits_length] at this
    rw [lt_iff_toNat_lt] at hlt
    omega
  obtain ⟨b, hb⟩ := exists_side h hne
  have hlen := length_lt_of_side hb
  have hget : p.bits[n.bits.length] = b := by
    have := hb.getElem (i := n.bits.length) (by simp)
    rw [← this]
    simp
  rw [bits_getElem, bits_length, ← prefixBit_eq] at hget
  rwa [hget]

theorem octets_ext {a b : List UInt8} {n : Nat} (ha : a.length = n) (hb : b.length = n)
    (h : ∀ i < 8 * n, bitAt a i = bitAt b i) : a = b := by
  refine ext_getElem (ha.trans hb.symm) fun i h1 h2 => octet_ext fun j hj => ?_
  have := h (8 * i + j) (by omega)
  rwa [bitAt, bitAt, show (8 * i + j) / 8 = i by omega, show (8 * i + j) % 8 = j by omega, getD_eq_getElem _ _ h1,
    getD_eq_getElem _ _ h2] at this

theorem prefixlen_eq_of_bits (h : p.bits = q.bits) : p.prefixlen = q.prefixlen := by
  have := congrArg length h
  rw [bits_length, bits_length] at this
  exact toNat_inj.1 this

theorem eq_of_bits (hp : p.Masked) (hq : q.Masked) (h : p.bits = q.bits) : p = q := by
  have hlen := prefixlen_eq_of_bits h
  have hoct : p.octets = q.octets := by
    refine octets_ext p.length_eq q.length_eq fun i hi => ?_
    by_cases hlt : i < p.prefixlen.toNat
    · exact (bits_prefix_iff.1 (h ▸ prefix_refl p.bits)).2 i hlt
    · rw [hp i hi (Nat.not_lt.1 hlt), hq i hi (by rw [← hlen]; exact Nat.not_lt.1 hlt)]
  cases p
  cases q
  cases hlen
  cases hoct
  rfl

end Prefix

/-! ## `prefix_match` -/

def prefixMatch (n p : Prefix afi) : Bool :=
  if n.prefixlen > p.prefixlen then false
  else
    let offset := n.prefixlen.toNat / 8
    let shift := n.prefixlen.toNat % 8
    if shift ≠ 0 ∧ maskbit shift &&& (n.octets.getD offset 0 ^^^ p.octets.getD offset 0) ≠ 0 then false
    else n.octets.take offset == p.octets.take offset

theorem take_eq_iff {a b : List UInt8} (ha : m ≤ a.length) (hb : m ≤ b.length) :
    a.take m = b.take m ↔ ∀ i < 8 * m, bitAt a i = bitAt b i := by
  constructor
  · intro h i hi
    have hm : i / 8 < m := by omega
    have hget : a.getD (i / 8) 0 = b.getD (i / 8) 0 := by
      have := congrArg (·[i / 8]?) h
      simpa [hm, getElem?_eq_getElem (hm.trans_le ha), getElem?_eq_getElem (hm.trans_le hb)] using this
    rw [bitAt, bitAt, hget]
  · intro h
    refine octets_ext (length_take_of_le ha) (length_take_of_le hb) fun i hi => ?_
    have hm : i / 8 < m := by omega
    have htake : ∀ l : List UInt8, bitAt (l.take m) i = bitAt l i := fun l => by
      rw [bitAt, bitAt, getD_eq_getElem?_getD, getD_eq_getElem?_getD, getElem?_take, if_pos hm]
    rw [htake, htake]
    exact h i hi

variable {n p : Prefix afi} {k : Nat}

/-- `prefix_match` goes by the bits. -/
theorem prefixMatch_iff : prefixMatch n p = true ↔ n.bits <+: p.bits := by
  unfold prefixMatch
  rw [bits_prefix_iff]
  by_cases hle : n.prefixlen ≤ p.prefixlen
  · have hn := n.prefixlen_le
    have hmod : n.prefixlen.toNat % 8 < 8 := Nat.mod_lt _ (by decide)
    have hdiv := Nat.div_add_mod n.prefixlen.toNat 8
    rw [if_neg (UInt8.not_lt.2 hle)]
    dsimp only
    generalize n.prefixlen.toNat / 8 = offset at *
    generalize n.prefixlen.toNat % 8 = shift at *
    have hoff : ∀ q : Prefix afi, offset ≤ q.octets.length := fun q => by
      rw [q.length_eq]
      omega
    have hmask := @and_xor_eq_zero_iff (n.octets.getD offset 0) (p.octets.getD offset 0) _ (· < shift) _
      fun _ => octetBit_maskbit (by omega)
    split_ifs with hdiff
    · rw [Ne, Ne, hmask] at hdiff
      constructor
      · rintro ⟨⟩
      · intro h
        refine absurd (fun j hj _ => ?_) hdiff.2
        rw [← bitAt_eq hj, ← bitAt_eq hj]
        exact h.2 _ (by omega)
    · rw [beq_iff_eq, take_eq_iff (hoff n) (hoff p)]
      refine ⟨fun h => ⟨hle, fun i hi => ?_⟩, fun h i hi => h.2 i (by omega)⟩
      by_cases hi' : i < 8 * offset
      · exact h i hi'
      have hzero : maskbit shift &&& (n.octets.getD offset 0 ^^^ p.octets.getD offset 0) = 0 := by
        by_contra hne
        exact hdiff ⟨by omega, hne⟩
      have := hmask.1 hzero (i - 8 * offset) (by omega) (by omega)
      rw [← bitAt_eq (by omega), ← bitAt_eq (by omega), Nat.add_sub_cancel' (by omega)] at this
      exact this
  · rw [if_pos (UInt8.not_le.1 hle)]
    constructor
    · rintro ⟨⟩
    · intro h
      exact absurd h.1 hle

/-! ## `route_common` -/

/-- The first loop of `route_common`: the octets that agree, of the whole ones of `p`. -/
def commonOctets : Nat → List UInt8 → List UInt8 → Nat
  | left + 1, a :: np, b :: pp => if a = b then commonOctets left np pp + 1 else 0
  | _, _, _ => 0

/-- The second loop, with the number of bits that are left. -/
def commonBits (diff : UInt8) : Nat → UInt8 → Nat → Nat
  | 0, _, prefixlen => prefixlen
  | left + 1, mask, prefixlen =>
    if mask &&& diff = 0 then commonBits diff left (mask >>> 1) (prefixlen + 1) else prefixlen

def commonLen (n p : Prefix afi) : Nat :=
  let i := commonOctets (p.prefixlen.toNat / 8) n.octets p.octets
  if 8 * i ≠ p.prefixlen.toNat then
    commonBits (n.octets.getD i 0 ^^^ p.octets.getD i 0) (p.prefixlen.toNat - 8 * i) 0x80 (8 * i)
  else 8 * i

theorem commonOctets_spec : ∀ (left : Nat) (np pp : List UInt8), left ≤ np.length → left ≤ pp.length →
    commonOctets left np pp ≤ left ∧ (∀ k < commonOctets left np pp, np.getD k 0 = pp.getD k 0) ∧
      (commonOctets left np pp < left → np.getD (commonOctets left np pp) 0 ≠ pp.getD (commonOctets left np pp) 0)
  | 0, np, pp, _, _ => by
    exact ⟨le_rfl, fun k hk => absurd hk (Nat.not_lt_zero k), fun h => absurd h (Nat.lt_irrefl 0)⟩
  | left + 1, a :: np, b :: pp, hn, hp => by
    obtain ⟨hle, hsame, hdiff⟩ := commonOctets_spec left np pp (Nat.le_of_succ_le_succ hn) (Nat.le_of_succ_le_succ hp)
    rw [commonOctets]
    split_ifs with hab
    · refine ⟨Nat.succ_le_succ hle, fun k hk => ?_, fun h => ?_⟩
      · cases k with
        | zero => exact hab
        | succ k => exact hsame k (Nat.lt_of_succ_lt_succ hk)
      · exact hdiff (Nat.lt_of_succ_lt_succ h)
    · exact ⟨Nat.zero_le _, fun k hk => absurd hk (Nat.not_lt_zero k), fun _ => hab⟩

theorem shifted_succ (hk : k < 7) : (0x80 >>> ofNat k : UInt8) >>> 1 = 0x80 >>> ofNat (k + 1) := by
  interval_cases k <;> rfl

/-- The loop stops at the first bit that differs, or where no bits are left, but within the octet. -/
theorem commonBits_spec (a b : UInt8) : ∀ (left k base : Nat), k < 8 →
    (k + left < 8 ∨ ∃ j, k ≤ j ∧ j < 8 ∧ octetBit a j ≠ octetBit b j) →
    ∃ m, m ≤ left ∧ k + m < 8 ∧ commonBits (a ^^^ b) left (0x80 >>> ofNat k) base = base + m ∧
      (∀ j, k ≤ j → j < k + m → octetBit a j = octetBit b j) ∧ (m < left → octetBit a (k + m) ≠ octetBit b (k + m))
  | 0, k, base, hk, _ => ⟨0, le_rfl, hk, rfl, fun j h1 h2 => by omega, fun h => absurd h (Nat.lt_irrefl 0)⟩
  | left + 1, k, base, hk, hex => by
    rw [commonBits]
    by_cases hsame : octetBit a k = octetBit b k
    · rw [if_pos ((shifted_and_eq_zero_iff hk).2 hsame)]
      have hnext : k < 7 ∧ (k + 1 + left < 8 ∨ ∃ j, k + 1 ≤ j ∧ j < 8 ∧ octetBit a j ≠ octetBit b j) := by
        rcases hex with hlt | ⟨j, hj, hj8, hne⟩
        · exact ⟨by omega, .inl (by omega)⟩
        have hjk : j ≠ k := by
          rintro rfl
          exact hne hsame
        exact ⟨by omega, .inr ⟨j, by omega, hj8, hne⟩⟩
      rw [shifted_succ hnext.1]
      obtain ⟨m, hm, hm8, heq, hbits, hstop⟩ := commonBits_spec a b left (k + 1) (base + 1) (by omega) hnext.2
      refine ⟨m + 1, by omega, by omega, by rw [heq]; omega, fun j h1 h2 => ?_, fun h => ?_⟩
      · by_cases hjk : j = k
        · exact hjk ▸ hsame
        · exact hbits j (by omega) (by omega)
      · rw [show k + (m + 1) = k + 1 + m by omega]
        exact hstop (by omega)
    · rw [if_neg fun h => hsame ((shifted_and_eq_zero_iff hk).1 h)]
      exact ⟨0, Nat.zero_le _, hk, rfl, fun j h1 h2 => by omega, fun _ => hsame⟩

/-- The octets of the first loop, and the length after both. -/
theorem commonLen_spec (n p : Prefix afi) :
    commonOctets (p.prefixlen.toNat / 8) n.octets p.octets = commonLen n p / 8 ∧ commonLen n p ≤ p.prefixlen.toNat ∧
      (∀ i < commonLen n p, bitAt n.octets i = bitAt p.octets i) ∧
      (commonLen n p < p.prefixlen.toNat → bitAt n.octets (commonLen n p) ≠ bitAt p.octets (commonLen n p)) := by
  have hn := n.length_eq
  have hp := p.length_eq
  have hlen := p.prefixlen_le
  obtain ⟨hle, hsame, hdiff⟩ := commonOctets_spec (p.prefixlen.toNat / 8) n.octets p.octets (by omega) (by omega)
  unfold commonLen
  dsimp only
  generalize commonOctets (p.prefixlen.toNat / 8) n.octets p.octets = i at *
  have hwhole : ∀ k < 8 * i, bitAt n.octets k = bitAt p.octets k := fun k hk => by
    rw [bitAt, bitAt, hsame (k / 8) (by omega)]
  split_ifs with hne
  · have hex : 0 + (p.prefixlen.toNat - 8 * i) < 8 ∨
        ∃ j, 0 ≤ j ∧ j < 8 ∧ octetBit (n.octets.getD i 0) j ≠ octetBit (p.octets.getD i 0) j := by
      by_contra hall
      push Not at hall
      exact hdiff (by omega) (octet_ext fun j hj => hall.2 j (Nat.zero_le j) hj)
    obtain ⟨m, hm, hm8, heq, hagree, hstop⟩ := commonBits_spec _ _ (p.prefixlen.toNat - 8 * i) 0 (8 * i) (by decide) hex
    rw [Nat.zero_add] at hm8 hagree hstop
    rw [show (0x80 >>> ofNat 0 : UInt8) = 0x80 from rfl] at heq
    rw [heq]
    refine ⟨by omega, by omega, fun k hk => ?_, fun hlt => ?_⟩
    · by_cases hk' : k < 8 * i
      · exact hwhole k hk'
      · have := hagree (k - 8 * i) (Nat.zero_le _) (by omega)
        rwa [← bitAt_eq (by omega), ← bitAt_eq (by omega), Nat.add_sub_cancel' (by omega)] at this
    · rw [bitAt_eq hm8, bitAt_eq hm8]
      exact hstop (by omega)
  · exact ⟨by omega, by omega, hwhole, fun h => by omega⟩

/-- `route_common`, with memory for the result that is zero. -/
def routeCommon (n p : Prefix afi) : Prefix afi where
  prefixlen := ofNat (commonLen n p)
  octets :=
    let i := commonOctets (p.prefixlen.toNat / 8) n.octets p.octets
    let newp := n.octets.take i ++ replicate (afi.octets - i) 0
    if 8 * i ≠ p.prefixlen.toNat then newp.set i (n.octets.getD i 0 &&& maskbit (commonLen n p % 8)) else newp
  length_eq := by
    have hn := n.length_eq
    have hp := p.prefixlen_le
    have hspec := commonLen_spec n p
    dsimp only
    split <;> simp <;> omega
  prefixlen_le := by
    have hp := p.prefixlen_le
    have hspec := commonLen_spec n p
    rw [toNat_ofNat']
    omega

theorem routeCommon_prefixlen (n p : Prefix afi) : (routeCommon n p).prefixlen.toNat = commonLen n p := by
  have := (commonLen_spec n p).2.1
  have := p.prefixlen.toNat_lt
  rw [routeCommon, toNat_ofNat', Nat.mod_eq_of_lt (by omega)]

theorem getD_take_zeros (np : List UInt8) {q : Nat} (hi : i ≤ np.length) :
    (np.take i ++ replicate m 0).getD q 0 = if q < i then np.getD q 0 else 0 := by
  split_ifs with hq
  · rw [getD_append _ _ _ _ (by rw [length_take]; omega), getD_eq_getElem?_getD, getD_eq_getElem?_getD, getElem?_take,
      if_pos hq]
  · rw [getD_append_right _ _ _ _ (by rw [length_take]; omega), getD_eq_getElem?_getD, getElem?_replicate]
    split <;> rfl

section
variable {np : List UInt8} {k len m : Nat} (hnp : np.length = m) (hk : k < 8 * m) (hlen : len ≤ 8 * m)
include hnp hlen

/-- Outside the octet of the last bit. -/
theorem zeros_bitAt (hq : k / 8 ≠ len / 8 ∨ 8 * (len / 8) = len) :
    bitAt (np.take (len / 8) ++ replicate (m - len / 8) 0) k = (decide (k < len) && bitAt np k) := by
  unfold bitAt
  rw [getD_take_zeros _ (by omega)]
  split_ifs with hlt
  · rw [decide_eq_true (by omega), Bool.true_and]
  · rw [decide_eq_false (by omega), Bool.false_and, octetBit_zero]
include hk

theorem masked_bitAt : bitAt ((np.take (len / 8) ++ replicate (m - len / 8) 0).set (len / 8)
    (np.getD (len / 8) 0 &&& maskbit (len % 8))) k = (decide (k < len) && bitAt np k) := by
  by_cases hq : k / 8 = len / 8
  · unfold bitAt
    rw [hq, getD_eq_getElem?_getD, getElem?_set_self (by simp; omega), Option.getD_some, octetBit_and,
      octetBit_maskbit (by omega) (by omega), Bool.and_comm]
    congr 1
    exact decide_eq_decide.2 (by omega)
  · rw [← zeros_bitAt hnp hlen (.inl hq), bitAt, bitAt, getD_eq_getElem?_getD, getElem?_set_ne (Ne.symm hq),
      ← getD_eq_getElem?_getD]

end

/-- The result has the bits of `n` up to its length, and zeros behind. -/
theorem routeCommon_bitAt (n p : Prefix afi) (hk : k < 8 * afi.octets) :
    bitAt (routeCommon n p).octets k = (decide (k < commonLen n p) && bitAt n.octets k) := by
  obtain ⟨hi, hle, -, -⟩ := commonLen_spec n p
  have hlen := hle.trans p.prefixlen_le
  unfold routeCommon
  dsimp only
  rw [hi]
  split
  · exact masked_bitAt n.length_eq hk hlen
  · exact zeros_bitAt n.length_eq hlen (.inr (by omega))

theorem routeCommon_masked (n p : Prefix afi) : (routeCommon n p).Masked := by
  intro k hk hle
  rw [routeCommon_prefixlen] at hle
  rw [routeCommon_bitAt n p hk, decide_eq_false (Nat.not_lt.2 hle), Bool.false_and]

theorem routeCommon_prefix (hq : commonLen n p ≤ q.prefixlen.toNat)
    (h : ∀ k < commonLen n p, bitAt n.octets k = bitAt q.octets k) : (routeCommon n p).bits <+: q.bits := by
  have hp := p.prefixlen_le
  have hle := (commonLen_spec n p).2.1
  refine bits_prefix_iff.2 ⟨?_, fun k hk => ?_⟩
  · rwa [le_iff_toNat_le, routeCommon_prefixlen]
  · rw [routeCommon_prefixlen] at hk
    rw [routeCommon_bitAt n p (by omega), decide_eq_true hk, Bool.true_and, h k hk]

theorem routeCommon_prefix_right (n p : Prefix afi) : (routeCommon n p).bits <+: p.bits :=
  have hspec := (commonLen_spec n p).2
  routeCommon_prefix hspec.1 hspec.2.1

/-- Where `n` does not contain `p`, the result lies above `n`, and it is `p` or the two part there. -/
theorem routeCommon_spec (h : ¬ n.bits <+: p.bits) : ∃ b, (routeCommon n p).bits ++ [b] <+: n.bits ∧
      ((routeCommon n p).bits = p.bits ∨ (routeCommon n p).bits ++ [!b] <+: p.bits) := by
  obtain ⟨-, hle, hagree, hstop⟩ := commonLen_spec n p
  have hlt : commonLen n p < n.prefixlen.toNat := by
    by_contra hge
    refine h (bits_prefix_iff.2 ⟨le_iff_toNat_le.2 (by omega), fun i hi => hagree i (by omega)⟩)
  have hn : (routeCommon n p).bits ++ [bitAt n.octets (commonLen n p)] <+: n.bits := by
    have := side_of_bit ( routeCommon_prefix hlt.le fun _ _ => rfl) (by rwa [lt_iff_toNat_lt, routeCommon_prefixlen])
    rwa [prefixBit_eq, routeCommon_prefixlen] at this
  refine ⟨bitAt n.octets (commonLen n p), hn, ?_⟩
  by_cases heq : commonLen n p = p.prefixlen.toNat
  · left
    refine (routeCommon_prefix_right n p).eq_of_length ?_
    rw [bits_length, bits_length, routeCommon_prefixlen, heq]
  right
  have hlt' : commonLen n p < p.prefixlen.toNat := by omega
  have := side_of_bit (routeCommon_prefix_right n p) (by rwa [lt_iff_toNat_lt, routeCommon_prefixlen])
  rw [prefixBit_eq, routeCommon_prefixlen] at this
  rwa [Bool.eq_not_of_ne (hstop hlt').symm] at this

end Prefixes

end Tarpan.Lib
