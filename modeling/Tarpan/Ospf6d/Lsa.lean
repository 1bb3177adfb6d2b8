/-
Link state advertisements of OSPFv3 (ospf6d/ospf6_lsa.c, ospf6d/ospf6_flood.c): ages, which of two instances is the more
recent one, and how an instance is cleared from the retransmission lists.
-/
import Tarpan.Ospfd.Lsa

namespace Tarpan.Ospf6d

open Ospfd

/-- `struct ospf6_ls_origin`. -/
structure LsOrigin where
  type : UInt16
  id : UInt32
  advRouter : UInt32
  deriving DecidableEq

/-- `struct ospf6_lsa`, with the numbers of its header in host order. `lsdbData` is what its database belongs to. -/
structure Ospf6Lsa where
  key : LsOrigin
  age : UInt16
  seqnum : UInt32
  checksum : UInt16
  birth : Int
  lsdbData : Nat
  deriving DecidableEq

/-- `struct ospf6_interface`, with its neighbors. -/
structure Ospf6Interface where
  address : Nat
  neighborList : List Nat

structure Ospf6Area where
  address : Nat
  stub : Bool
  ifList : List Ospf6Interface

/-- `struct ospf6`, with the area that each interface is in. -/
structure Ospf6 where
  areaList : List Ospf6Area
  interfaceArea : Nat → Nat

/-- The retransmission lists of all neighbors. -/
abbrev RetransLists := Nat → LsOrigin → Option Ospf6Lsa

section
variable (now : Int) (ospf6 : Ospf6) (lsa a b : Ospf6Lsa) (retrans : RetransLists)

def Ospf6Lsa.seq : Int := lsa.seqnum.toBitVec.toInt

/-- `ospf6_lsa_age_current`. The age that it writes to the header is the one that it finds again. -/
def ospf6LsaAgeCurrent : Int :=
  if ospfLsaMaxage ≤ lsa.age.toNat then ospfLsaMaxage
  else
    let ulage := (now - lsa.birth) % 2 ^ 32
    if ospfLsaMaxage < ulage then ospfLsaMaxage else ulage

/-- The comparison of two ages. -/
def ageCompare (agea ageb : Int) : Int :=
  if agea = ospfLsaMaxage ∧ ageb ≠ ospfLsaMaxage then -1
  else if agea ≠ ospfLsaMaxage ∧ ageb = ospfLsaMaxage then 1
  else if ageb < agea ∧ ospfLsaMaxageDiff ≤ agea - ageb then 1
  else if agea < ageb ∧ ospfLsaMaxageDiff ≤ ageb - agea then -1
  else 0

/-- `ospf6_lsa_compare`, for instances of one LSA. -/
def ospf6LsaCompare : Int :=
  if b.seq < a.seq then -1
  else if a.seq < b.seq then 1
  else if b.checksum < a.checksum then -1
  else if a.checksum < b.checksum then 0
  else ageCompare (ospf6LsaAgeCurrent now a) (ospf6LsaAgeCurrent now b)

/-- `OSPF6_LSA_SCOPE`. -/
def Ospf6Lsa.scope : UInt16 := lsa.key.type &&& 0x6000

/-- One neighbor in `ospf6_flood_clear_interface`, without the count of the original. -/
def ospf6FloodClearNeighbor (nbr : Nat) : RetransLists :=
  match retrans nbr lsa.key with
  | some rem =>
    if ospf6LsaCompare now rem lsa = 0 then fun nbr' k => if nbr' = nbr ∧ k = lsa.key then none else retrans nbr' k
    else retrans
  | none => retrans

def ospf6FloodClearInterface (oi : Ospf6Interface) : RetransLists :=
  oi.neighborList.foldl (ospf6FloodClearNeighbor now lsa) retrans

def ospf6FloodClearArea (oa : Ospf6Area) : RetransLists :=
  oa.ifList.foldl (fun retrans oi =>
    if lsa.scope = 0x0000 ∧ oi.address ≠ lsa.lsdbData then retrans
    else ospf6FloodClearInterface now lsa retrans oi) retrans

def ospf6FloodClear : RetransLists :=
  ospf6.areaList.foldl (fun retrans oa =>
    if lsa.scope = 0x2000 ∧ oa.address ≠ lsa.lsdbData then retrans
    else if lsa.scope = 0x0000 ∧ oa.address ≠ ospf6.interfaceArea lsa.lsdbData then retrans
    else if lsa.key.type = 0x4005 ∧ oa.stub then retrans
    else ospf6FloodClearArea now lsa retrans oa) retrans

/-- What makes two instances the same one. -/
structure SameInstance : Prop where
  seq : a.seq = b.seq
  checksum : a.checksum = b.checksum
  maxage : ospf6LsaAgeCurrent now a = ospfLsaMaxage ↔ ospf6LsaAgeCurrent now b = ospfLsaMaxage
  age : |ospf6LsaAgeCurrent now a - ospf6LsaAgeCurrent now b| < ospfLsaMaxageDiff

/-- Entries leave the lists only where the comparison finds them equal. -/
def Cleared (retrans' : RetransLists) : Prop :=
  ∀ nbr k, retrans' nbr k = retrans nbr k ∨ ∃ rem, retrans nbr k = some rem ∧ ospf6LsaCompare now rem lsa = 0

end

section
variable {now : Int} {lsa a b : Ospf6Lsa} {r r' r'' : RetransLists}

theorem ageCompare_neg (agea ageb : Int) : ageCompare ageb agea = -ageCompare agea ageb := by
  unfold ageCompare ospfLsaMaxage ospfLsaMaxageDiff
  split_ifs <;> omega

/-- The checksums decide in one direction only. -/
theorem ospf6LsaCompare_eq_neg_iff :
    ospf6LsaCompare now a b = -ospf6LsaCompare now b a ↔ (a.seq = b.seq → a.checksum = b.checksum) := by
  have hage := ageCompare_neg (ospf6LsaAgeCurrent now a) (ospf6LsaAgeCurrent now b)
  unfold ospf6LsaCompare
  simp only [UInt16.lt_iff_toNat_lt, ← UInt16.toNat_inj]
  by_cases hseq : a.seq = b.seq
  · rw [forall_prop_of_true hseq]
    split_ifs <;> grind
  · refine iff_of_true ?_ fun heq => absurd heq hseq
    split_ifs <;> omega

theorem sameInstance_of_compare (h : ospf6LsaCompare now a b = 0) (hsum : a.seq = b.seq → a.checksum = b.checksum) :
    SameInstance now a b := by
  unfold ospf6LsaCompare at h
  simp only [UInt16.lt_iff_toNat_lt] at h
  have hseq : a.seq = b.seq := by
    split_ifs at h <;> omega
  have hdiff : ospfLsaMaxageDiff = 900 := rfl
  rw [hseq, hsum hseq, if_neg (lt_irrefl _), if_neg (lt_irrefl _), if_neg (lt_irrefl _), if_neg (lt_irrefl _)] at h
  unfold ageCompare at h
  refine ⟨hseq, hsum hseq, ?_, abs_lt.2 ?_⟩
  · split_ifs at h <;> omega
  · split_ifs at h <;> omega

theorem Cleared.refl : Cleared now lsa r r := fun _ _ => .inl rfl

theorem Cleared.trans (h : Cleared now lsa r r') (h' : Cleared now lsa r' r'') : Cleared now lsa r r'' := by
  intro nbr k
  rcases h nbr k with heq | hgone
  · rw [← heq]
    exact h' nbr k
  · exact .inr hgone

theorem cleared_foldl {α : Type} {f : RetransLists → α → RetransLists} (hf : ∀ r x, Cleared now lsa r (f r x))
    (l : List α) (r : RetransLists) : Cleared now lsa r (l.foldl f r) :=
  List.foldlRecOn l f .refl fun r' h x _ => h.trans (hf r' x)

theorem ospf6FloodClearNeighbor_cleared (nbr : Nat) : Cleared now lsa r (ospf6FloodClearNeighbor now lsa r nbr) := by
  intro nbr' k
  unfold ospf6FloodClearNeighbor
  cases hrem : r nbr lsa.key with
  | none => exact .inl rfl
  | some rem =>
    by_cases hsame : ospf6LsaCompare now rem lsa = 0
    · simp only [if_pos hsame]
      split_ifs with hk
      · exact .inr ⟨rem, by rw [hk.1, hk.2, hrem], hsame⟩
      · exact .inl rfl
    · simp only [if_neg hsame, true_or]

theorem ospf6FloodClear_cleared (ospf6 : Ospf6) (r : RetransLists) :
    Cleared now lsa r (ospf6FloodClear now ospf6 lsa r) := by
  refine cleared_foldl (fun r oa => ?_) _ r
  split_ifs
  · exact .refl
  · exact .refl
  · exact .refl
  · refine cleared_foldl (fun r oi => ?_) _ r
    split_ifs
    · exact .refl
    · exact cleared_foldl (fun _ => ospf6FloodClearNeighbor_cleared) _ r

end

/-- Two instances are compared alike from both sides, and clearing one removes no other, unless their sequence numbers
are equal and their checksums are not. -/
theorem ospf6LsaCompare_agrees_iff (now : Int) (a b : Ospf6Lsa) :
    ospf6LsaCompare now a b = -ospf6LsaCompare now b a ∧ (∀ (ospf6 : Ospf6) (r : RetransLists) (nbr : Nat),
      r nbr b.key = some a → ospf6FloodClear now ospf6 b r nbr b.key = none → SameInstance now a b) ↔
      (a.seq = b.seq → a.checksum = b.checksum) := by
  refine ⟨fun h => ospf6LsaCompare_eq_neg_iff.1 h.1, fun hsum => ⟨ospf6LsaCompare_eq_neg_iff.2 hsum, ?_⟩⟩
  intro ospf6 r nbr ha hgone
  rcases ospf6FloodClear_cleared ospf6 r nbr b.key with heq | ⟨rem, hrem, hzero⟩
  · rw [hgone, ha] at heq
    cases heq
  rw [ha] at hrem
  cases hrem
  exact sameInstance_of_compare hzero hsum

/-- Instances that differ in their checksums. -/
def summedLsa (checksum : UInt16) : Ospf6Lsa := ⟨⟨0x2001, 0, 0⟩, 0, 1, checksum, 0, 0⟩

/-- The comparison depends on the side, and clearing the second instance removes the first one. -/
theorem ospf6LsaCompare_checksums : ospf6LsaCompare 0 (summedLsa 1) (summedLsa 2) = 0 ∧
    ospf6LsaCompare 0 (summedLsa 2) (summedLsa 1) = -1 ∧
    ospf6FloodClear 0 ⟨[⟨0, false, [⟨0, [0]⟩]⟩], fun _ => 0⟩ (summedLsa 2) (fun _ _ => some (summedLsa 1)) 0
      (summedLsa 2).key = none ∧ ¬SameInstance 0 (summedLsa 1) (summedLsa 2) :=
  ⟨by decide, by decide, by decide, fun h => absurd h.checksum (by decide)⟩

end Tarpan.Ospf6d
