/-
Interning with reference counts, the pattern that AS paths, communities and Tarpan attributes
share: `x_intern` looks its argument up in a hash table, enters it if nothing compares equal, and
counts a reference; `x_unintern` drops a reference and takes the object out with the last one.
The tables that such calls lead to hold exactly the objects with references, no two of them equal
for the comparison, so a lookup finds the one object there is.
-/
import Tarpan.Lib.Hash

namespace Tarpan.Bgpd

open Lib Function

/-- A hash table of objects and their `refcnt` fields. An object is its identity together with
what the key and comparison functions read; neither changes while it is in the table. Fewer than
`2 ^ 64` references are held, which an `unsigned long` counts, and the table is not expanded beyond
the `2 ^ 31` chains for which `hashStep` is `hashGet`. -/
structure InternTable (α : Type) where
  hash : Hash α
  refcnt : α → Nat

def InternTable.empty {α : Type} : InternTable α := ⟨hashCreate, fun _ => 0⟩

section
variable {α : Type} [DecidableEq α] (hashKey : α → UInt32) (hashCmp : α → α → Bool)

/-- `x_intern`: the argument must not be interned yet. -/
def intern (t : InternTable α) (x : α) : Option (α × InternTable α) :=
  if t.refcnt x = 0 then
    match hashGet hashKey hashCmp t.hash x some with
    | (some find, h) => some (find, ⟨h, update t.refcnt find (t.refcnt find + 1)⟩)
    | (none, _) => none
  else none

/-- `x_unintern`: with the last reference the object must be found in the table. -/
def unintern (t : InternTable α) (x : α) : Option (InternTable α) :=
  let refcnt := update t.refcnt x (t.refcnt x - 1)
  if refcnt x = 0 then
    match hashRelease hashKey hashCmp t.hash x with
    | (some _, h) => some ⟨h, refcnt⟩
    | (none, _) => none
  else some ⟨t.hash, refcnt⟩

/-- The objects in the table are those with references, under their own keys, and no two of them
compare equal. -/
structure InternTable.Ok (t : InternTable α) : Prop where
  keyed : ∀ b, t.hash.Holds b → b.key = hashKey b.data
  distinct : t.hash.Distinct hashCmp
  live : ∀ x, t.hash.Holds ⟨hashKey x, x⟩ ↔ 0 < t.refcnt x

/-- Two objects that the table does not tell apart. -/
def SameEntry (x y : α) : Prop := hashKey x = hashKey y ∧ hashCmp x y = true

end

section
variable {α : Type} {hashKey : α → UInt32} {hashCmp : α → α → Bool} {t : InternTable α} {x y : α}

theorem InternTable.empty_ok : (InternTable.empty : InternTable α).Ok hashKey hashCmp where
  keyed := fun b hb => absurd hb (hashCreate_holds b)
  distinct := fun _ => .nil
  live := fun x => iff_of_false (hashCreate_holds _) (by simp [InternTable.empty])

variable (heq : Equivalence fun a b => hashCmp a b = true)
include heq

/-- Live objects that the table does not tell apart are one object. -/
theorem InternTable.Ok.unique (ht : t.Ok hashKey hashCmp) (hx : 0 < t.refcnt x) (hy : 0 < t.refcnt y)
    (hxy : SameEntry hashKey hashCmp x y) : x = y := by
  by_contra hne
  have hxm := (ht.live x).2 hx
  have hym : (⟨hashKey y, y⟩ : HashBacket α) ∈ t.hash.index (hashSlot t.hash.bits (hashKey x)) := by
    rw [hxy.1]
    exact (ht.live y).2 hy
  have : Std.Symm fun b c : HashBacket α => ¬ (b.key = c.key ∧ hashCmp b.data c.data = true) :=
    ⟨fun b c h hcb => h ⟨hcb.1.symm, heq.symm hcb.2⟩⟩
  exact (ht.distinct _).forall hxm hym (fun h => hne (congrArg HashBacket.data h)) hxy

variable [DecidableEq α]

omit heq in
theorem pos_update_succ (refcnt : α → Nat) (x y : α) : 0 < update refcnt x (refcnt x + 1) y ↔ y = x ∨ 0 < refcnt y := by
  by_cases h : y = x <;> simp [h]

/-- `x_intern` gives the live object that compares equal to its argument, or the argument itself. -/
theorem intern_spec (ht : t.Ok hashKey hashCmp) (hx : t.refcnt x = 0) :
    ∃ y t', intern hashKey hashCmp t x = some (y, t') ∧ t'.Ok hashKey hashCmp ∧
      t'.refcnt = update t.refcnt y (t.refcnt y + 1) ∧ SameEntry hashKey hashCmp y x ∧
      (y = x ∨ 0 < t.refcnt y) ∧
      ∀ z, 0 < t.refcnt z → SameEntry hashKey hashCmp z x → z = y := by
  unfold intern
  rw [if_pos hx]
  cases hfind : hashFind hashKey hashCmp t.hash x with
  | some b =>
    obtain ⟨hholds, hkey, hcmp⟩ := hashFind_some hfind
    have hdata := (ht.keyed b hholds).symm.trans hkey
    have hlive : 0 < t.refcnt b.data := by
      rw [← ht.live, ← ht.keyed b hholds]
      exact hholds
    rw [hashGet_of_find hfind]
    refine ⟨b.data, _, rfl, ⟨ht.keyed, ht.distinct, fun z => ?_⟩, rfl, ⟨hdata, hcmp⟩, .inr hlive, ?_⟩
    · rw [pos_update_succ, ht.live]
      constructor
      · exact Or.inr
      · rintro (rfl | hz)
        · exact hlive
        · exact hz
    · intro z hz hzx
      exact ht.unique heq hz hlive ⟨hzx.1.trans hdata.symm, heq.trans hzx.2 (heq.symm hcmp)⟩
  | none =>
    obtain ⟨h, hget, hdist, -, hholds⟩ := hashGet_enter heq ht.distinct hfind rfl (heq.refl x)
    rw [hget]
    refine ⟨x, _, rfl, ⟨fun b hb => ?_, hdist, fun z => ?_⟩, rfl, ⟨rfl, heq.refl x⟩, .inl rfl, ?_⟩
    · rcases (hholds b).1 hb with rfl | hb
      · rfl
      · exact ht.keyed b hb
    · rw [pos_update_succ, hholds, ht.live]
      constructor
      · rintro (heq | hz)
        · exact .inl (congrArg HashBacket.data heq)
        · exact .inr hz
      · rintro (rfl | hz)
        · exact .inl rfl
        · exact .inr hz
    · intro z hz hzx
      exact absurd hzx (hashFind_none hfind ((ht.live z).2 hz))

/-- `x_unintern` on a live object drops one reference, and the object with the last one. -/
theorem unintern_spec (ht : t.Ok hashKey hashCmp) (hx : 0 < t.refcnt x) :
    ∃ t', unintern hashKey hashCmp t x = some t' ∧ t'.Ok hashKey hashCmp ∧
      t'.refcnt = update t.refcnt x (t.refcnt x - 1) := by
  unfold unintern
  simp only [update_self]
  split_ifs with hlast
  · have hholds := (ht.live x).2 hx
    cases hfind : hashFind hashKey hashCmp t.hash x with
    | none => exact absurd ⟨rfl, heq.refl x⟩ (hashFind_none hfind hholds)
    | some b =>
      have hrel := hashRelease_holds heq ht.distinct hfind
      have hsome : hashRelease hashKey hashCmp t.hash x =
          (some b.data, (hashRelease hashKey hashCmp t.hash x).2) := by simp [hashRelease, hfind]
      rw [hsome]
      refine ⟨_, rfl, ⟨fun c hc => ht.keyed c ((hrel c).1 hc).1, hashRelease_distinct ht.distinct x, fun z => ?_⟩, rfl⟩
      show (hashRelease hashKey hashCmp t.hash x).2.Holds _ ↔ 0 < update t.refcnt x _ z
      rw [hrel, ht.live]
      by_cases hz : z = x
      · subst hz
        rw [update_self]
        exact iff_of_false (fun h => h.2 ⟨rfl, heq.refl z⟩) (by omega)
      · rw [update_of_ne hz]
        exact ⟨fun h => h.1, fun h => ⟨h, fun hzx => hz (ht.unique heq h hx hzx)⟩⟩
  · refine ⟨_, rfl, ⟨ht.keyed, ht.distinct, fun z => ?_⟩, rfl⟩
    show t.hash.Holds _ ↔ 0 < update t.refcnt x _ z
    by_cases hz : z = x
    · subst hz
      rw [update_self, ht.live]
      exact iff_of_true hx (by omega)
    · rw [update_of_ne hz]
      exact ht.live z

/-- The tables that runs of `x_intern` and `x_unintern` lead to; only held objects are dropped. -/
inductive InternTable.Reachable (hashKey : α → UInt32) (hashCmp : α → α → Bool) : InternTable α → Prop
  | empty : Reachable hashKey hashCmp .empty
  | intern {t t' : InternTable α} {x y : α} : Reachable hashKey hashCmp t →
      Bgpd.intern hashKey hashCmp t x = some (y, t') → Reachable hashKey hashCmp t'
  | unintern {t t' : InternTable α} {x : α} : Reachable hashKey hashCmp t → 0 < t.refcnt x →
      Bgpd.unintern hashKey hashCmp t x = some t' → Reachable hashKey hashCmp t'

omit heq in
theorem refcnt_eq_zero_of_intern {t' : InternTable α} (h : intern hashKey hashCmp t x = some (y, t')) :
    t.refcnt x = 0 := by
  unfold intern at h
  split at h
  · assumption
  · cases h

theorem InternTable.Reachable.ok (h : t.Reachable hashKey hashCmp) : t.Ok hashKey hashCmp := by
  induction h with
  | empty => exact InternTable.empty_ok
  | @intern t t' x y _ hstep ih =>
    obtain ⟨y1, t1, hint, hok, -⟩ := intern_spec heq ih (refcnt_eq_zero_of_intern hstep)
    rw [hint] at hstep
    cases hstep
    exact hok
  | @unintern t t' x _ hx hstep ih =>
    obtain ⟨t1, hunintern, hok, -⟩ := unintern_spec heq ih hx
    rw [hunintern] at hstep
    cases hstep
    exact hok

end

end Tarpan.Bgpd
