/-
Link state advertisements of OSPF (ospfd/ospf_lsa.c, ospfd/ospf_lsdb.c): headers, ages, and which of two instances is
the more recent one.
-/
import Tarpan.Base.Words

namespace Tarpan.Ospfd

/-- `struct lsa_header`, with its numbers in host order. -/
structure LsaHeader where
  lsAge : UInt16
  options : UInt8
  type : UInt8
  id : UInt32
  advRouter : UInt32
  lsSeqnum : UInt32
  checksum : UInt16
  length : UInt16
  deriving DecidableEq

/-- What the instances of an LSA have in common. -/
structure LsaKey where
  type : UInt8
  id : UInt32
  advRouter : UInt32
  deriving DecidableEq

def LsaHeader.key (lsah : LsaHeader) : LsaKey := ⟨lsah.type, lsah.id, lsah.advRouter⟩

/-- `struct ospf_lsa`, at its address; times are in microseconds. -/
structure OspfLsa where
  address : Nat
  data : LsaHeader
  tvRecv : Int

/-- `struct ospf_lsdb`. -/
abbrev Lsdb := LsaKey → Option OspfLsa

def ospfLsaMaxage : Int := 3600
def ospfLsaMaxageDiff : Int := 900
def getAge (now : Int) (lsa : OspfLsa) : Int := lsa.data.lsAge.toNat + (now - lsa.tvRecv).fdiv 1000000

def lsAge (now : Int) (lsa : OspfLsa) : Int := if ospfLsaMaxage < getAge now lsa then ospfLsaMaxage else getAge now lsa

def isLsaMaxage (now : Int) (lsa : OspfLsa) : Bool := lsAge now lsa = ospfLsaMaxage

/-- `(int) ntohl (lsah->ls_seqnum)`. -/
def LsaHeader.seqnum (lsah : LsaHeader) : Int := lsah.lsSeqnum.toBitVec.toInt

/-- The comparison of the checksums and the ages. -/
def ageMoreRecent (now : Int) (l1 l2 : OspfLsa) : Int :=
  let r : Int := l1.data.checksum.toNat - l2.data.checksum.toNat
  if r ≠ 0 then r
  else if isLsaMaxage now l1 ∧ ¬ isLsaMaxage now l2 then 1
  else if ¬ isLsaMaxage now l1 ∧ isLsaMaxage now l2 then -1
  else if lsAge now l1 - lsAge now l2 > ospfLsaMaxageDiff then -1
  else if lsAge now l2 - lsAge now l1 > ospfLsaMaxageDiff then 1
  else 0

def ospfLsaMoreRecent (now : Int) : Option OspfLsa → Option OspfLsa → Int
  | none, none => 0
  | none, some _ => -1
  | some _, none => 1
  | some l1, some l2 =>
    if l1.data.seqnum > l2.data.seqnum then 1
    else if l1.data.seqnum < l2.data.seqnum then -1
    else ageMoreRecent now l1 l2

section Order
variable {now : Int} {l1 l2 l3 : OspfLsa}

theorem ageMoreRecent_neg (now : Int) (l1 l2 : OspfLsa) : ageMoreRecent now l2 l1 = -ageMoreRecent now l1 l2 := by
  unfold ageMoreRecent isLsaMaxage ospfLsaMaxage ospfLsaMaxageDiff
  simp only [decide_eq_true_eq]
  split_ifs <;> omega

/-- Which of two instances is the more recent one does not depend on their order. -/
theorem ospfLsaMoreRecent_neg (now : Int) (l1 l2 : Option OspfLsa) :
    ospfLsaMoreRecent now l2 l1 = -ospfLsaMoreRecent now l1 l2 := by
  rcases l1 with _ | l1 <;> rcases l2 with _ | l2
  · rfl
  · rfl
  · rfl
  · rw [ospfLsaMoreRecent, ospfLsaMoreRecent, ageMoreRecent_neg now l1 l2]
    split_ifs <;> omega

/-- The checksum decides, then whether the age is the maximum, then the ages where they differ by much. -/
theorem ageMoreRecent_pos_iff : 0 < ageMoreRecent now l1 l2 ↔
    l2.data.checksum.toNat < l1.data.checksum.toNat ∨ l1.data.checksum.toNat = l2.data.checksum.toNat ∧
      (isLsaMaxage now l1 ∧ ¬ isLsaMaxage now l2 ∨
        (isLsaMaxage now l1 ↔ isLsaMaxage now l2) ∧ ospfLsaMaxageDiff < lsAge now l2 - lsAge now l1) := by
  unfold ageMoreRecent
  have hdiff : ospfLsaMaxageDiff = 900 := rfl
  by_cases h1 : isLsaMaxage now l1 = true <;> by_cases h2 : isLsaMaxage now l2 = true <;>
    simp only [h1, h2, not_false_eq_true, and_true, and_false, true_and, false_and, if_false, iff_true, iff_false,
      or_false, false_or, not_true_eq_false, Bool.false_eq_true] <;>
    split_ifs <;> omega

theorem ageMoreRecent_trans (h : 0 < ageMoreRecent now l1 l2) (h' : 0 < ageMoreRecent now l2 l3) :
    0 < ageMoreRecent now l1 l3 := by
  rw [ageMoreRecent_pos_iff] at h h' ⊢
  have hdiff : ospfLsaMaxageDiff = 900 := rfl
  rcases h with h | ⟨heq, h⟩ <;> rcases h' with h' | ⟨heq', h'⟩
  · exact .inl (by omega)
  · exact .inl (by omega)
  · exact .inl (by omega)
  · refine .inr ⟨heq.trans heq', ?_⟩
    rcases h with ⟨hmax, hnot⟩ | ⟨hiff, hage⟩ <;> rcases h' with ⟨hmax', hnot'⟩ | ⟨hiff', hage'⟩
    · exact absurd hmax' hnot
    · exact .inl ⟨hmax, fun h3 => hnot (hiff'.2 h3)⟩
    · exact .inl ⟨hiff.2 hmax', hnot'⟩
    · exact .inr ⟨hiff.trans hiff', by omega⟩

theorem not_moreRecent_none (l : Option OspfLsa) : ¬ 0 < ospfLsaMoreRecent now none l := by
  cases l <;> simp [ospfLsaMoreRecent]

/-- An instance that is more recent than a second one is more recent than all that the second one is more recent
than. -/
theorem ospfLsaMoreRecent_trans {l1 l2 l3 : Option OspfLsa} (h : 0 < ospfLsaMoreRecent now l1 l2)
    (h' : 0 < ospfLsaMoreRecent now l2 l3) : 0 < ospfLsaMoreRecent now l1 l3 := by
  rcases l1 with _ | l1
  · exact absurd h (not_moreRecent_none l2)
  rcases l2 with _ | l2
  · exact absurd h' (not_moreRecent_none l3)
  rcases l3 with _ | l3
  · exact Int.one_pos
  rw [ospfLsaMoreRecent] at h h' ⊢
  rcases lt_trichotomy l1.data.seqnum l2.data.seqnum with h12 | h12 | h12
  · omega
  · rcases lt_trichotomy l2.data.seqnum l3.data.seqnum with h23 | h23 | h23
    · omega
    · rw [if_neg (by omega), if_neg (by omega)] at h h' ⊢
      exact ageMoreRecent_trans h h'
    · rw [if_pos (by omega)]
      exact Int.one_pos
  · rcases lt_trichotomy l2.data.seqnum l3.data.seqnum with h23 | h23 | h23
    · omega
    · rw [if_pos (by omega)]
      exact Int.one_pos
    · rw [if_pos (by omega)]
      exact Int.one_pos

end Order

end Tarpan.Ospfd
