/-
Link State IDs of networks (ospfd/ospf_lsa.c). Networks with one address and different masks share their first choice;
the second choice is the address with all host bits set.
-/
import Tarpan.Base.Runs
import Tarpan.Lib.PrefixAlgebra

namespace Tarpan.Ospfd

open Base Lib List

/-- The own summary or external LSAs of a database by their Link State IDs, each with the prefix that it is for. -/
abbrev NetworkLsas := List UInt8 → Option (Prefix .ip)

/-- The address with the wildcard mask applied. -/
def wildcardId (p : Prefix .ip) : List UInt8 := zipWith (fun a m => a ||| ~~~m) p.octets (masklen2ip p.prefixlen.toNat)

/-- The result where there is no Link State ID. -/
def noId : List UInt8 := [0xff, 0xff, 0xff, 0xff]

/-- `ospf_lsa_unique_id`. The second choice is looked up in `ospf->lsdb`, whichever database `lsdb` is. -/
def ospfLsaUniqueId (ospfLsdb lsdb : NetworkLsas) (p : Prefix .ip) : List UInt8 :=
  match lsdb p.octets with
  | some al =>
    if al.prefixlen = p.prefixlen then noId
    else if (ospfLsdb (wildcardId p)).isSome then noId
    else wildcardId p
  | none => p.octets

/-- `ospf_lsa_lookup_by_prefix`, with the Link State ID of the LSA as the result. -/
def ospfLsaLookupByPrefix (lsdb : NetworkLsas) (p : Prefix .ip) : Option (List UInt8) :=
  match lsdb p.octets with
  | none => none
  | some hmask =>
    if masklen2ip p.prefixlen.toNat ≠ masklen2ip hmask.prefixlen.toNat then
      if (lsdb (wildcardId p)).isSome then some (wildcardId p) else none
    else some p.octets

/-- A database, and the prefixes that were originated in it and not withdrawn. -/
structure Networks where
  lsdb : NetworkLsas
  originated : List (Prefix .ip)

inductive NetworkOp where
  | originate (p : Prefix .ip)
  | withdraw (p : Prefix .ip)

/-- An origination or a withdrawal. The database is `ospf->lsdb` itself where there is no other one. -/
def NetworkOp.step (other : Option NetworkLsas) (s : Networks) : NetworkOp → Networks
  | originate p =>
    let id := ospfLsaUniqueId (other.getD s.lsdb) s.lsdb p
    if id = noId then s else ⟨Function.update s.lsdb id (some p), p :: s.originated⟩
  | withdraw p => ⟨fun id => if s.lsdb id = some p then none else s.lsdb id, s.originated.filter (· ≠ p)⟩

section
variable {ospfLsdb lsdb lsdb' : NetworkLsas} {p q : Prefix .ip} {id : List UInt8}

/-- The LSA of the prefix is found, under its Link State ID. -/
def FoundAt (lsdb : NetworkLsas) (p : Prefix .ip) (id : List UInt8) : Prop :=
  ospfLsaLookupByPrefix lsdb p = some id ∧ lsdb id = some p

/-- No other prefix has an LSA under the Link State ID. -/
def Unused (lsdb : NetworkLsas) (p : Prefix .ip) (id : List UInt8) : Prop := ∀ q, lsdb id = some q → q = p

/-- Where the address is taken by another mask and `ospf->lsdb` has nothing under the second choice, `lsdb` has no other
LSA there. -/
def WildcardUnused (ospfLsdb lsdb : NetworkLsas) (p : Prefix .ip) : Prop :=
  (∃ q, lsdb p.octets = some q ∧ q.prefixlen ≠ p.prefixlen) → ospfLsdb (wildcardId p) = none → wildcardId p ≠ noId →
    Unused lsdb p (wildcardId p)

/-- The second choice is not in use when it is taken, and the LSA that is withdrawn is not under the address of another
prefix. -/
def NetworkOp.Apart (other : Option NetworkLsas) (s : Networks) : NetworkOp → Prop
  | originate p => WildcardUnused (other.getD s.lsdb) s.lsdb p
  | withdraw p => ∀ q ∈ s.originated, q ≠ p → s.lsdb q.octets ≠ some p

theorem masklen2ip_injective : ∀ j < 33, ∀ k < 33, masklen2ip j = masklen2ip k → j = k := by decide +kernel

theorem foundAt_iff : FoundAt lsdb p id ↔ lsdb id = some p ∧
    (id = p.octets ∨ id = wildcardId p ∧ ∃ q, lsdb p.octets = some q ∧ q.prefixlen ≠ p.prefixlen) := by
  unfold FoundAt ospfLsaLookupByPrefix
  rw [and_comm]
  refine and_congr_right fun hid => ?_
  cases hp : lsdb p.octets with
  | none =>
    have hne : id ≠ p.octets := by
      rintro rfl
      cases hp.symm.trans hid
    simp [hne]
  | some q =>
    have hmask : masklen2ip p.prefixlen.toNat = masklen2ip q.prefixlen.toNat ↔ q.prefixlen = p.prefixlen := by
      refine ⟨fun h => UInt8.toNat_inj.1 (masklen2ip_injective _ ?_ _ ?_ h.symm), fun h => by rw [h]⟩
      · exact Nat.lt_succ_of_le q.prefixlen_le
      · exact Nat.lt_succ_of_le p.prefixlen_le
    simp only [ne_eq, hmask, ite_not]
    by_cases hlen : q.prefixlen = p.prefixlen
    · simp [hlen, eq_comm]
    have hne : id ≠ p.octets := by
      rintro rfl
      cases hp.symm.trans hid
      exact hlen rfl
    have hsome : id = wildcardId p → (lsdb (wildcardId p)).isSome := by
      rintro rfl
      rw [hid, Option.isSome_some]
    simp only [hne, Option.some.injEq, exists_eq_left', hlen, not_false_eq_true, and_true, false_or]
    grind

theorem FoundAt.mono (h : FoundAt lsdb q id) (hsub : ∀ i r, lsdb i = some r → lsdb' i = some r) :
    FoundAt lsdb' q id := by
  obtain ⟨hid, hplace⟩ := foundAt_iff.1 h
  exact foundAt_iff.2 ⟨hsub _ _ hid, hplace.imp_right fun ⟨hwild, r, hr, hlen⟩ => ⟨hwild, r, hsub _ _ hr, hlen⟩⟩

end

end Tarpan.Ospfd
