/-
Prefixes as sets of addresses (lib/prefix.c). `prefix_match` is inclusion of these sets, `prefix_cmp` is zero where they
are equal, and `apply_mask` takes one prefix for each set.
-/
import Tarpan.Lib.PrefixBits

namespace Tarpan.Lib

open Base List

variable {afi : Afi}

def prefixCmp (p1 p2 : Prefix afi) : Nat :=
  if p1.prefixlen ≠ p2.prefixlen then 1
  else
    let offset := p1.prefixlen.toNat / 8
    let shift := p1.prefixlen.toNat % 8
    if shift ≠ 0 ∧ maskbit shift &&& (p1.octets.getD offset 0 ^^^ p2.octets.getD offset 0) ≠ 0 then 1
    else if p1.octets.take offset == p2.octets.take offset then 0 else 1

/-- The octets of the mask, in network order. -/
def masklen2ip (masklen : Nat) : List UInt8 := beBytes 4 (0xffffffff <<< (32 - masklen))

def applyMaskIpv4 (p : Prefix .ip) : Prefix .ip where
  prefixlen := p.prefixlen
  octets := zipWith (· &&& ·) p.octets (masklen2ip p.prefixlen.toNat)
  length_eq := by simp [p.length_eq, masklen2ip, Afi.octets]
  prefixlen_le := p.prefixlen_le

def applyMaskIpv6 (p : Prefix .ip6) : Prefix .ip6 where
  prefixlen := p.prefixlen
  octets :=
    let index := p.prefixlen.toNat / 8
    if index < 16 then
      (p.octets.take index ++ replicate (16 - index) 0).set index
        (p.octets.getD index 0 &&& maskbit (p.prefixlen.toNat % 8))
    else p.octets
  length_eq := by
    have := p.length_eq
    dsimp only
    split
    · rw [Afi.octets] at *
      simp
      omega
    · exact this
  prefixlen_le := p.prefixlen_le

def applyMask : ∀ {afi : Afi}, Prefix afi → Prefix afi
  | .ip, p => applyMaskIpv4 p
  | .ip6, p => applyMaskIpv6 p

theorem prefixCmp_eq_zero_iff {n p : Prefix afi} :
    prefixCmp n p = 0 ↔ n.prefixlen = p.prefixlen ∧ prefixMatch n p = true := by
  unfold prefixCmp prefixMatch
  by_cases hlen : n.prefixlen = p.prefixlen
  · rw [and_iff_right hlen, hlen, if_neg (not_not_intro rfl), if_neg (c := p.prefixlen > _) (UInt8.lt_irrefl _)]
    dsimp only
    split_ifs with hmask htake
    · simp
    · simpa using htake
    · simpa using htake
  · simp [hlen]

namespace Prefix

/-- The addresses with the first bits of the prefix. -/
def addresses (p : Prefix afi) : Set (List UInt8) :=
  {addr | addr.length = afi.octets ∧ ∀ i < p.prefixlen.toNat, bitAt addr i = bitAt p.octets i}

variable (p : Prefix afi)

theorem masklen2ip_bitAt : ∀ k < 33, ∀ i < 32, bitAt (masklen2ip k) i = decide (i < k) := by decide +kernel
theorem applyMask_prefixlen : (applyMask p).prefixlen = p.prefixlen := by cases afi <;> rfl

theorem applyMask_bitAt {k : Nat} (hk : k < 8 * afi.octets) :
    bitAt (applyMask p).octets k = (decide (k < p.prefixlen.toNat) && bitAt p.octets k) := by
  have hlength := p.length_eq
  have hlen := p.prefixlen_le
  cases afi with
  | ip =>
    rw [Afi.octets] at hlength hlen hk
    rw [← masklen2ip_bitAt _ (by omega) k (by omega), Bool.and_comm, bitAt, bitAt, bitAt, ← octetBit_and, applyMask,
      applyMaskIpv4]
    have hmask : (masklen2ip p.prefixlen.toNat).length = 4 := beBytes_length 4 _
    rw [getD_eq_getElem _ _ (by simp; omega), getElem_zipWith, getD_eq_getElem, getD_eq_getElem]
  | ip6 =>
    rw [applyMask, applyMaskIpv6]
    dsimp only
    split
    · exact masked_bitAt hlength hk hlen
    · rw [Afi.octets] at hk
      rw [decide_eq_true (by omega), Bool.true_and]

theorem applyMask_masked : (applyMask p).Masked := by
  intro k hk hle
  rw [applyMask_prefixlen] at hle
  rw [applyMask_bitAt p hk, decide_eq_false (Nat.not_lt.2 hle), Bool.false_and]

theorem applyMask_bits : (applyMask p).bits = p.bits := by
  have hlen := p.prefixlen_le
  rw [bits, bits, applyMask_prefixlen]
  refine map_congr_left fun k hk => ?_
  rw [mem_range] at hk
  rw [applyMask_bitAt p (by omega), decide_eq_true hk, Bool.true_and]

def flipBit (octets : List UInt8) (k : Nat) : List UInt8 := octets.modify (k / 8) (· ^^^ 0x80 >>> UInt8.ofNat (k % 8))

theorem flipBit_bitAt {octets : List UInt8} {k : Nat} (hk : k < 8 * octets.length) (i : Nat) :
    bitAt (flipBit octets k) i = (bitAt octets i ^^ decide (i = k)) := by
  unfold bitAt
  rw [flipBit, getD_eq_getElem?_getD, getElem?_modify]
  by_cases hq : k / 8 = i / 8
  · rw [getElem?_eq_getElem (by omega), getD_eq_getElem _ _ (by omega)]
    simp only [hq, if_true, Option.map_eq_map, Option.map_some, Option.getD_some]
    rw [octetBit_xor, octetBit_shifted (by omega) (by omega)]
    congr 1
    exact decide_eq_decide.2 (by omega)
  · rw [decide_eq_false (by rintro rfl; exact hq rfl), Bool.xor_false]
    simp [hq]

variable {p} {n : Prefix afi}

theorem match_iff_subset : prefixMatch n p = true ↔ p.addresses ⊆ n.addresses := by
  rw [prefixMatch_iff, bits_prefix_iff, UInt8.le_iff_toNat_le]
  constructor
  · rintro ⟨hle, hbits⟩ addr ⟨hlength, haddr⟩
    exact ⟨hlength, fun i hi => (haddr i (hi.trans_le hle)).trans (hbits i hi).symm⟩
  · intro hsub
    have hself := (hsub ⟨p.length_eq, fun _ _ => rfl⟩).2
    refine ⟨?_, fun i hi => (hself i hi).symm⟩
    by_contra hlt
    rw [not_le] at hlt
    have hflip := @flipBit_bitAt p.octets p.prefixlen.toNat (by rw [p.length_eq]; exact hlt.trans_le n.prefixlen_le)
    have hmem : flipBit p.octets p.prefixlen.toNat ∈ p.addresses :=
      ⟨(length_modify ..).trans p.length_eq, fun i hi => by simp [hflip, hi.ne]⟩
    simpa [hflip, hself _ hlt] using (hsub hmem).2 _ hlt

theorem addresses_eq_iff : n.addresses = p.addresses ↔ n.bits = p.bits := by
  rw [Set.Subset.antisymm_iff, ← match_iff_subset, ← match_iff_subset, prefixMatch_iff, prefixMatch_iff]
  exact ⟨fun h => (h.2.eq_of_length_le h.1.length_le), fun h => h ▸ ⟨prefix_rfl, prefix_rfl⟩⟩

end Prefix

open Prefix

/-- Matching is inclusion of the addresses, a preorder whose equivalence is `prefix_cmp`; the mask picks one prefix for
each set of addresses. -/
theorem prefix_algebra (n p q : Prefix afi) :
    (prefixMatch n p ↔ p.addresses ⊆ n.addresses) ∧ prefixMatch p p ∧
      (prefixMatch n p → prefixMatch p q → prefixMatch n q) ∧
    (prefixMatch n p ∧ prefixMatch p n ↔ prefixCmp n p = 0) ∧ applyMask (applyMask p) = applyMask p ∧
    (applyMask p).addresses = p.addresses ∧ (n.addresses = p.addresses → applyMask n = applyMask p) := by
  refine ⟨match_iff_subset, ?_, ?_, ?_, ?_, addresses_eq_iff.2 (applyMask_bits p), fun h => ?_⟩
  · exact prefixMatch_iff.2 prefix_rfl
  · simp only [prefixMatch_iff]
    exact IsPrefix.trans
  · simp only [prefixCmp_eq_zero_iff, prefixMatch_iff]
    constructor
    · rintro ⟨hnp, hpn⟩
      exact ⟨prefixlen_eq_of_bits (hnp.eq_of_length_le hpn.length_le), hnp⟩
    · rintro ⟨hlen, hnp⟩
      exact ⟨hnp, (hnp.eq_of_length (by rw [bits_length, bits_length, hlen])).symm ▸ prefix_rfl⟩
  · exact eq_of_bits (applyMask_masked _) (applyMask_masked p) (applyMask_bits _)
  · refine eq_of_bits (applyMask_masked n) (applyMask_masked p) ?_
    rw [applyMask_bits, applyMask_bits, addresses_eq_iff.1 h]

end Tarpan.Lib
