/-
Address families and prefixes (zebra.h, lib/prefix.h), and the encoding of a prefix that NLRI use
(`stream_put_prefix`).
-/
import Tarpan.Lib.Stream

namespace Tarpan.Lib

/-- `afi_t`. -/
inductive Afi where
  | ip | ip6
  deriving DecidableEq, Repr

/-- `safi_t`. -/
inductive Safi where
  | unicast | multicast | mplsVpn
  deriving DecidableEq, Repr

def Afi.code : Afi → UInt16
  | .ip => 1
  | .ip6 => 2

def Safi.code : Safi → UInt8
  | .unicast => 1
  | .multicast => 2
  | .mplsVpn => 4

def Afi.octets : Afi → Nat
  | .ip => 4
  | .ip6 => 16

/-- `PSIZE`: the octets that a prefix of `a` bits takes. -/
def psize (a : UInt8) : Nat := (a.toNat + 7) / 8

/-- `struct prefix` of the family `afi`. -/
structure Prefix (afi : Afi) where
  prefixlen : UInt8
  octets : List UInt8
  length_eq : octets.length = afi.octets
  prefixlen_le : prefixlen.toNat ≤ 8 * afi.octets
  deriving DecidableEq

/-- An address with a length. -/
def ip4 (a b c d prefixlen : UInt8) (h : prefixlen ≤ 32) : Prefix .ip where
  prefixlen := prefixlen
  octets := [a, b, c, d]
  length_eq := rfl
  prefixlen_le := UInt8.le_iff_toNat_le.1 h

theorem slash24_le : (24 : UInt8) ≤ 32 := by decide

/-- What `stream_put_prefix` writes. -/
def Prefix.wire {afi : Afi} (p : Prefix afi) : List UInt8 := p.prefixlen :: p.octets.take (psize p.prefixlen)
def streamPutPrefix {afi : Afi} (s : Stream) (p : Prefix afi) : Option Stream := streamAppend s p.wire

theorem Prefix.psize_le {afi : Afi} (p : Prefix afi) : psize p.prefixlen ≤ afi.octets := by
  have := p.prefixlen_le
  unfold psize
  omega

theorem Prefix.wire_length {afi : Afi} (p : Prefix afi) : p.wire.length = 1 + psize p.prefixlen := by
  rw [Prefix.wire, List.length_cons, List.length_take, p.length_eq, Nat.min_eq_left p.psize_le, Nat.add_comm]

/-! ## Prefixes as text (lib/prefix.c)

The length behind the slash goes through `atoi` and then into an octet, and only the octet is compared with the number
of bits of an address. -/

open List Option

/-! ## Numbers in text -/

/-- The number that digits spell. -/
def decimalVal (s : List Char) : Nat := s.foldl (fun n c => 10 * n + (c.toNat - '0'.toNat)) 0
def IsDecimal (s : List Char) : Prop := s ≠ [] ∧ s.all Char.isDigit = true

instance (s : List Char) : Decidable (IsDecimal s) := inferInstanceAs (Decidable (_ ∧ _))

/-- What is asked of the C library: `inet_aton` and `inet_pton` for the addresses of a family, and `atoi`. -/
structure TextEnv where
  inet (afi : Afi) : List Char → Option { octets : List UInt8 // octets.length = afi.octets }
  atoi : List Char → Int

/-- `atoi` knows the numbers that an `int` can hold. -/
def TextEnv.ReadsInts (env : TextEnv) : Prop := ∀ s, IsDecimal s → decimalVal s < 2 ^ 31 → env.atoi s = decimalVal s

/-! ## Prefixes -/

/-- The common text of the two functions. -/
def str2prefix (env : TextEnv) (afi : Afi) (str : List Char) : Option (Prefix afi) :=
  match str.dropWhile (· ≠ '/') with
  | [] => (env.inet afi str).map fun addr =>
    { prefixlen := UInt8.ofNat (8 * afi.octets), octets := addr.1, length_eq := addr.2, prefixlen_le := Nat.mod_le .. }
  | _ :: pnt => do
    let addr ← env.inet afi (str.takeWhile (· ≠ '/'))
    let plen := (env.atoi pnt % 256).toNat
    if h : plen ≤ 8 * afi.octets then
      some { prefixlen := UInt8.ofNat plen, octets := addr.1, length_eq := addr.2
             prefixlen_le := (Nat.mod_le ..).trans h }
    else none

def str2prefixIpv4 (env : TextEnv) (str : List Char) : Option (Prefix .ip) := str2prefix env .ip str
def str2prefixIpv6 (env : TextEnv) (str : List Char) : Option (Prefix .ip6) := str2prefix env .ip6 str

/-- Where there is a slash, a number of bits is behind it, and that is the length of the prefix. -/
def LengthWritten {afi : Afi} (str : List Char) (p : Prefix afi) : Prop :=
  ∀ pnt, str.dropWhile (· ≠ '/') = '/' :: pnt →
    IsDecimal pnt ∧ decimalVal pnt ≤ 8 * afi.octets ∧ p.prefixlen.toNat = decimalVal pnt

/-- There is no slash, no address before it, a number of bits behind it, or something that `atoi` takes for a number
whose last octet is more than the number of bits. -/
def LengthSettled (env : TextEnv) (afi : Afi) (str : List Char) : Prop :=
  ∀ pnt, str.dropWhile (· ≠ '/') = '/' :: pnt → env.inet afi (str.takeWhile (· ≠ '/')) = none ∨
    IsDecimal pnt ∧ decimalVal pnt ≤ 8 * afi.octets ∨ 8 * afi.octets < env.atoi pnt % 256

section Length
variable {env : TextEnv} {afi : Afi} {str pnt : List Char}

theorem str2prefix_slash (hstr : str.dropWhile (· ≠ '/') = '/' :: pnt) (n : Nat) :
    (∃ p, str2prefix env afi str = some p ∧ p.prefixlen.toNat = n) ↔
      (env.inet afi (str.takeWhile (· ≠ '/'))).isSome ∧ env.atoi pnt % 256 = n ∧ n ≤ 8 * afi.octets := by
  rw [ str2prefix, hstr]
  cases env.inet afi (str.takeWhile (· ≠ '/')) with
  | none => simp
  | some addr =>
    simp only [bind_eq_bind, bind_some, isSome_some, true_and]
    split
    · simp only [some.injEq, exists_eq_left', UInt8.toNat_ofNat']
      omega
    · simp only [reduceCtorEq, false_and, exists_false, false_iff]
      omega

theorem str2prefix_written_iff (henv : env.ReadsInts) :
    (∀ p, str2prefix env afi str = some p → LengthWritten str p) ↔ LengthSettled env afi str := by
  have hbits : 8 * afi.octets < 256 := by cases afi <;> decide
  constructor
  · intro h pnt hstr
    by_contra hcond
    simp only [not_or] at hcond
    obtain ⟨hinet, hdec, hle⟩ := hcond
    obtain ⟨p, hp, -⟩ :=
      (str2prefix_slash hstr (env.atoi pnt % 256).toNat).2 ⟨isSome_iff_ne_none.2 hinet, by omega, by omega⟩
    obtain ⟨hd, hv, -⟩ := h p hp pnt hstr
    exact hdec ⟨hd, hv⟩
  · intro h p hp pnt hstr
    obtain ⟨hinet, hlen, hle⟩ := (str2prefix_slash hstr p.prefixlen.toNat).1 ⟨p, hp, rfl⟩
    rcases h pnt hstr with hnone | ⟨hd, hv⟩ | hlt
    · rw [hnone] at hinet
      cases hinet
    · rw [henv pnt hd (by omega)] at hlen
      exact ⟨hd, hv, by omega⟩
    · omega

end Length

theorem str2prefixes_written_iff {env : TextEnv} (henv : env.ReadsInts) (str : List Char) :
    ((∀ p, str2prefixIpv4 env str = some p → LengthWritten str p) ↔ LengthSettled env .ip str) ∧
      ((∀ p, str2prefixIpv6 env str = some p → LengthWritten str p) ↔ LengthSettled env .ip6 str) :=
  ⟨str2prefix_written_iff henv, str2prefix_written_iff henv⟩

/-- All addresses are zero. -/
def TextEnv.zero : TextEnv where
  inet afi _ := some ⟨replicate afi.octets 0, length_replicate ..⟩
  atoi s := decimalVal s

theorem str2prefixes_written_zero :
    (∀ p, str2prefixIpv4 .zero ['0', '/', '8'] = some p → LengthWritten ['0', '/', '8'] p) ↔
      LengthSettled .zero .ip ['0', '/', '8'] :=
  (str2prefixes_written_iff (fun _ _ _ => rfl) _).1

/-- 0/256 is taken for 0/0. -/
theorem str2prefixIpv4_octet : ∃ p, str2prefixIpv4 .zero ['0', '/', '2', '5', '6'] = some p ∧ p.prefixlen = 0 ∧
    ¬ LengthWritten ['0', '/', '2', '5', '6'] p :=
  ⟨_, rfl, rfl, fun h => absurd (h _ rfl).2.1 (by decide)⟩

end Tarpan.Lib
