/-
The costs of wiser.conf (wiser_static_path_costs.hpp). The key of a pair of ASes is packed from unsigned numbers where
the file is read and from signed ones where a cost is asked for, so the two agree below 2^31 and hardly anywhere else.
-/
import Tarpan.Bgpd.Wiser.Handler

namespace Tarpan.Bgpd

/-! ## The file -/

/-- A line of the file by what `wiser_static_path_costs_init` does with it; the numbers are as `operator>>` reads
them. -/
inductive ConfLine where
  | empty
  | comment
  | pathCost (as1 as2 cost : UInt32)
  | unknown

open ConfLine

/-- The key of a line; both numbers are `uint32_t`. -/
def confPair (as1 as2 : UInt32) : UInt64 := (min as1 as2).toUInt64 <<< 32 ||| (max as1 as2).toUInt64

/-- One turn of the loop; `insert` keeps an entry that is there. -/
def loadLine (costs : UInt64 → Option Int32) : ConfLine → UInt64 → Option Int32
  | .pathCost as1 as2 cost =>
    if (costs (confPair as1 as2)).isSome then costs
    else Function.update costs (confPair as1 as2) (some cost.toInt32)
  | .empty | .comment | .unknown => costs

def wiserStaticPathCostsInit (lines : List ConfLine) : UInt64 → Option Int32 := lines.foldl loadLine fun _ => none

/-- The cost that a line gives to a pair of ASes, in either order. -/
def ConfLine.costOf (as1 as2 : UInt32) : ConfLine → Option Int32
  | .pathCost a b cost => if a = as1 ∧ b = as2 ∨ a = as2 ∧ b = as1 then some cost.toInt32 else none
  | .empty | .comment | .unknown => none

/-- What the file says of a pair: the cost of the first line that names it, or `INT16_MAX`. -/
def configuredCost (lines : List ConfLine) (as1 as2 : UInt32) : Int32 := (lines.findSome? (costOf as1 as2)).getD 32767

/-- What a line puts under a key. -/
def ConfLine.entry (key : UInt64) : ConfLine → Option Int32
  | .pathCost a b cost => if confPair a b = key then some cost.toInt32 else none
  | .empty | .comment | .unknown => none

theorem loadLine_eq (costs : UInt64 → Option Int32) (line : ConfLine) (key : UInt64) :
    loadLine costs line key = (costs key).or (line.entry key) := by
  cases line with
  | pathCost a b cost =>
    rw [loadLine, entry]
    by_cases hkey : confPair a b = key
    · subst hkey
      rw [if_pos rfl]
      cases hcsts : costs (confPair a b) with
      | none => simp
      | some old => simp [hcsts]
    · rw [if_neg hkey, Option.or_none]
      split
      · rfl
      · exact Function.update_of_ne (Ne.symm hkey) _ _
  | empty | comment | unknown => exact (Option.or_none ..).symm

/-- The first line with a key is the one that counts. -/
theorem foldl_loadLine (lines : List ConfLine) (costs : UInt64 → Option Int32) (key : UInt64) :
    lines.foldl loadLine costs key = (costs key).or (lines.findSome? (·.entry key)) := by
  induction lines generalizing costs with
  | nil => exact (Option.or_none ..).symm
  | cons line lines ih =>
    rw [List.foldl_cons, ih, loadLine_eq, Option.or_assoc, List.findSome?_cons]
    cases line.entry key <;> rfl

/-! ## The keys -/

/-- Two words of which the first is shifted over the second one. -/
theorem toNat_shift_or (y z : UInt64) :
    (y <<< 32 ||| z).toNat = (y.toNat % 2 ^ 32 ||| z.toNat / 2 ^ 32) * 2 ^ 32 + z.toNat % 2 ^ 32 := by
  have hz : z.toNat = (z.toNat / 2 ^ 32) <<< 32 ||| z.toNat % 2 ^ 32 := by
    rw [Nat.shiftLeft_eq, Nat.mul_comm, ← Nat.two_pow_add_eq_or_of_lt (Nat.mod_lt _ (by decide)), Nat.div_add_mod]
  have hy : (y <<< 32).toNat = (y.toNat % 2 ^ 32) <<< 32 := by
    rw [UInt64.toNat_shiftLeft, Nat.shiftLeft_eq]
    show y.toNat * 2 ^ 32 % 2 ^ 64 = _
    omega
  rw [UInt64.toNat_or, hy]
  conv_lhs => rw [hz]
  rw [← Nat.or_assoc, ← Nat.shiftLeft_or_distrib, Nat.shiftLeft_eq, Nat.mul_comm,
    ← Nat.two_pow_add_eq_or_of_lt (Nat.mod_lt _ (by decide))]

theorem confPair_toNat (a b : UInt32) : (confPair a b).toNat = min a.toNat b.toNat * 2 ^ 32 + max a.toNat b.toNat := by
  have ha := a.toNat_lt
  have hb := b.toNat_lt
  have hmin : (min a b).toNat = min a.toNat b.toNat := by
    rw [Nat.min_def]
    exact apply_ite UInt32.toNat ..
  have hmax : (max a b).toNat = max a.toNat b.toNat := by
    rw [Nat.max_def]
    exact apply_ite UInt32.toNat ..
  rw [confPair, toNat_shift_or, UInt32.toNat_toUInt64, UInt32.toNat_toUInt64, hmin, hmax,
    Nat.div_eq_of_lt (by omega), Nat.or_zero, Nat.mod_eq_of_lt (by omega), Nat.mod_eq_of_lt (by omega)]

/-- A number from 2^31 on is extended with ones. -/
theorem toNat_signExtend (a : UInt32) :
    a.toInt32.toInt64.toUInt64.toNat = if a.toNat < 2 ^ 31 then a.toNat else a.toNat + (2 ^ 64 - 2 ^ 32) := by
  have ha := a.toNat_lt
  show (a.toBitVec.signExtend 64).toNat = _
  rw [BitVec.toNat_signExtend, BitVec.msb_eq_decide, BitVec.toNat_setWidth, UInt32.toNat_toBitVec]
  by_cases hsm : a.toNat < 2 ^ 31
  · rw [if_pos hsm, if_neg (by simpa using hsm)]
    omega
  · rw [if_neg hsm, if_pos (by simpa using hsm)]
    omega

theorem toInt_toInt32 (a : UInt32) :
    a.toInt32.toInt = if a.toNat < 2 ^ 31 then (a.toNat : Int) else a.toNat - 2 ^ 32 := by
  show a.toBitVec.toInt = _
  rw [BitVec.toInt_eq_toNat_cond, UInt32.toNat_toBitVec]
  congr 1
  simp only [eq_iff_iff]
  omega

/-- The ones of a number from 2^31 on cover the number that is shifted over it. -/
theorem packed_toNat (l h : UInt32) :
    (l.toInt32.toInt64.toUInt64 <<< 32 ||| h.toInt32.toInt64.toUInt64).toNat =
      (if h.toNat < 2 ^ 31 then l.toNat else 2 ^ 32 - 1) * 2 ^ 32 + h.toNat := by
  have hl := l.toNat_lt
  have hh := h.toNat_lt
  have hlow : l.toInt32.toInt64.toUInt64.toNat % 2 ^ 32 = l.toNat := by
    rw [toNat_signExtend]
    split <;> omega
  rw [toNat_shift_or, hlow, toNat_signExtend]
  by_cases hsm : h.toNat < 2 ^ 31
  · rw [if_pos hsm, if_pos hsm, Nat.div_eq_of_lt hh, Nat.or_zero, Nat.mod_eq_of_lt hh]
  have hones : (h.toNat + (2 ^ 64 - 2 ^ 32)) / 2 ^ 32 = 2 ^ 32 - 1 := by omega
  have hrest : (h.toNat + (2 ^ 64 - 2 ^ 32)) % 2 ^ 32 = h.toNat := by omega
  have hcover : l.toNat ||| (2 ^ 32 - 1) = 2 ^ 32 - 1 := by
    have hle : 2 ^ 32 - 1 ≤ l.toNat ||| (2 ^ 32 - 1) := Nat.right_le_or
    have hlt : l.toNat ||| (2 ^ 32 - 1) < 2 ^ 32 := Nat.or_lt_two_pow hl (by decide)
    omega
  rw [if_neg hsm, if_neg hsm, hones, hrest, hcover]

/-- The numbers are put in the order that they have with a sign. -/
theorem asPair_toNat (a b : UInt32) : ∃ l h, (l = a ∧ h = b ∨ l = b ∧ h = a) ∧ l.toInt32.toInt ≤ h.toInt32.toInt ∧
    (asPair a.toInt32 b.toInt32).toNat = (if h.toNat < 2 ^ 31 then l.toNat else 2 ^ 32 - 1) * 2 ^ 32 + h.toNat := by
  unfold asPair
  simp only [Int32.lt_iff_toInt_lt]
  rcases lt_trichotomy a.toInt32.toInt b.toInt32.toInt with hlt | heq | hgt
  · refine ⟨a, b, .inl ⟨rfl, rfl⟩, hlt.le, ?_⟩
    rw [if_neg hlt.not_gt, if_pos hlt]
    exact packed_toNat a b
  · obtain rfl : a = b := congrArg Int32.toUInt32 (Int32.toInt_inj.1 heq)
    refine ⟨a, a, .inl ⟨rfl, rfl⟩, le_rfl, ?_⟩
    rw [if_neg (lt_irrefl _)]
    exact packed_toNat a a
  · refine ⟨b, a, .inr ⟨rfl, rfl⟩, hgt.le, ?_⟩
    rw [if_pos hgt, if_neg hgt.not_gt]
    exact packed_toNat b a

/-- The last AS number, 4294967295. -/
def lastAs : UInt32 := 0xFFFFFFFF

/-- Two numbers from 2^31 on, of which one is the last: they are looked up as the pair of the last with itself. -/
def LooksUpLast (a b : UInt32) : Prop := 2 ^ 31 ≤ a.toNat ∧ 2 ^ 31 ≤ b.toNat ∧ (a = lastAs ∨ b = lastAs)

instance decidableLooksUpLast (a b : UInt32) : Decidable (LooksUpLast a b) := inferInstanceAs (Decidable (_ ∧ _))

theorem confPair_eq_asPair_iff {a b c d : UInt32} : confPair c d = asPair a.toInt32 b.toInt32 ↔
    a.toNat < 2 ^ 31 ∧ b.toNat < 2 ^ 31 ∧ (c = a ∧ d = b ∨ c = b ∧ d = a) ∨
    LooksUpLast a b ∧ c = lastAs ∧ d = lastAs := by
  obtain ⟨l, h, hlh, hle, hkey⟩ := asPair_toNat a b
  have hlast : lastAs.toNat = 2 ^ 32 - 1 := rfl
  have := a.toNat_lt
  have := b.toNat_lt
  have := c.toNat_lt
  have := d.toNat_lt
  rw [toInt_toInt32, toInt_toInt32] at hle
  rw [← UInt64.toNat_inj, confPair_toNat, hkey]
  unfold LooksUpLast
  simp only [← UInt32.toNat_inj]
  rcases hlh with ⟨rfl, rfl⟩ | ⟨rfl, rfl⟩ <;> split_ifs at hle ⊢ <;> omega

/-! ## The query -/

/-- The cost that is found is the configured one, where the numbers have no sign; else it is that of another pair or
the default. -/
theorem wiserGetPathCost_init (st : WiserState) (lines : List ConfLine) (a b : UInt32) :
    wiserGetPathCost { st with pathCosts := wiserStaticPathCostsInit lines } a b =
      if a.toNat < 2 ^ 31 ∧ b.toNat < 2 ^ 31 then configuredCost lines a b
      else if LooksUpLast a b then configuredCost lines lastAs lastAs else 32767 := by
  have hfound : ∀ c d, (∀ line : ConfLine, line.entry (asPair a.toInt32 b.toInt32) = line.costOf c d) →
      wiserGetPathCost { st with pathCosts := wiserStaticPathCostsInit lines } a b = configuredCost lines c d := by
    intro c d hent
    show (lines.foldl loadLine _ _).getD 32767 = _
    rw [foldl_loadLine, Option.none_or, funext hent]
    rfl
  by_cases hsm : a.toNat < 2 ^ 31 ∧ b.toNat < 2 ^ 31
  · rw [if_pos hsm]
    refine hfound a b fun line => ?_
    cases line with
    | pathCost c d cost =>
      have hlast : ¬ LooksUpLast a b := fun h => h.1.not_gt hsm.1
      simp only [entry, costOf, confPair_eq_asPair_iff, hsm, hlast, true_and, false_and, or_false]
    | empty | comment | unknown => rfl
  · rw [if_neg hsm]
    split_ifs with hlast
    · refine hfound lastAs lastAs fun line => ?_
      cases line with
      | pathCost c d cost =>
        simp only [entry, costOf, confPair_eq_asPair_iff, ← and_assoc, hsm, hlast, false_and,
          false_or, true_and, or_self]
      | empty | comment | unknown => rfl
    · have hnone : ∀ line : ConfLine, line.entry (asPair a.toInt32 b.toInt32) = none := by
        rintro (_ | _ | ⟨c, d, cost⟩ | _)
        · rfl
        · rfl
        · simp only [entry, confPair_eq_asPair_iff, ← and_assoc, hsm, hlast, false_and, or_self, if_false]
        · rfl
      show (lines.foldl loadLine _ _).getD 32767 = _
      rw [foldl_loadLine, Option.none_or, List.findSome?_eq_none_iff.2 fun line _ => hnone line, Option.getD_none]

theorem configuredCost_comm (lines : List ConfLine) (a b : UInt32) :
    configuredCost lines a b = configuredCost lines b a := by
  have hcomm : ∀ line : ConfLine, line.costOf a b = line.costOf b a := by
    rintro (_ | _ | ⟨c, d, cost⟩ | _)
    · rfl
    · rfl
    · simp [costOf, or_comm]
    · rfl
  rw [configuredCost, funext hcomm]
  rfl

/-- The query answers what the file says, in either order, exactly where the numbers have no sign or the answer for the
wrong key is the same one. -/
theorem wiserGetPathCost_configured_iff (st : WiserState) (lines : List ConfLine) (a b : UInt32) :
    (wiserGetPathCost { st with pathCosts := wiserStaticPathCostsInit lines } a b = configuredCost lines a b ∧
      wiserGetPathCost { st with pathCosts := wiserStaticPathCostsInit lines } b a = configuredCost lines a b) ↔
    a.toNat < 2 ^ 31 ∧ b.toNat < 2 ^ 31 ∨
      configuredCost lines a b = if LooksUpLast a b then configuredCost lines lastAs lastAs else 32767 := by
  have hlast : LooksUpLast b a ↔ LooksUpLast a b := by
    unfold LooksUpLast
    tauto
  rw [wiserGetPathCost_init, wiserGetPathCost_init, configuredCost_comm lines b a]
  simp only [hlast, and_comm (a := b.toNat < 2 ^ 31), and_self]
  by_cases hsm : a.toNat < 2 ^ 31 ∧ b.toNat < 2 ^ 31
  · simp only [hsm, and_self, if_true, true_or]
  · simp only [hsm, false_or]
    exact eq_comm

/-- The private AS number 4200000001 is above 2^31: the line that names the pair is not found. -/
theorem wiserGetPathCost_private_as : ∃ st : WiserState, ∃ lines : List ConfLine,
    lines = [.pathCost 100 4200000001 21] ∧ configuredCost lines 100 4200000001 = 21 ∧
    wiserGetPathCost { st with pathCosts := wiserStaticPathCostsInit lines } 100 4200000001 = 32767 :=
  ⟨⟨fun _ => none, fun _ => none, fun _ => none⟩, _, rfl, by decide, by decide⟩

end Tarpan.Bgpd
