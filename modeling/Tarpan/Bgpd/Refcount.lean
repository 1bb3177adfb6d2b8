/-
Counts of references in linked tables. The records of one table point to objects of another; a reference to a record
stands for one to each object it points to, and objects are also referred to from elsewhere. Where every reference is
taken and dropped once, the count of an object is what the records that use it say, and that from elsewhere.
-/
import Mathlib.Algebra.BigOperators.Group.Finset.Defs
import Tarpan.Bgpd.Intern

namespace Tarpan.Bgpd

open Lib List Function Option

section Tables
variable {α : Type} [DecidableEq α] (hashKey : α → UInt32) (hashCmp : α → α → Bool)

section
variable (intern : InternTable α → α → Option (α × InternTable α)) (t : InternTable α)

/-- `x_intern` where it does not assert that the argument is not interned. -/
def internAny (x : α) : Option (α × InternTable α) :=
  match hashGet hashKey hashCmp t.hash x some with
  | (some find, h) => some (find, ⟨h, update t.refcnt find (t.refcnt find + 1)⟩)
  | (none, _) => none

/-- `x_unintern` where it does not assert that the object was found in the table. -/
def uninternAny (x : α) : InternTable α :=
  let refcnt := update t.refcnt x (t.refcnt x - 1)
  if refcnt x = 0 then ⟨(hashRelease hashKey hashCmp t.hash x).2, refcnt⟩ else ⟨t.hash, refcnt⟩

/-- One more reference to an object: it is interned where it has none. -/
def takeRef (x : α) : Option (α × InternTable α) :=
  if t.refcnt x = 0 then intern t x else some (x, ⟨t.hash, update t.refcnt x (t.refcnt x + 1)⟩)

/-- The same for a pointer, which may be null. -/
def takePointer : Option α → Option (Option α × InternTable α)
  | none => some (none, t)
  | some x => (takeRef intern t x).map fun (y, t) => (some y, t)

end

/-- A reference through a pointer is dropped, where it is not null. -/
def dropPointer (unintern : InternTable α → α → Option (InternTable α)) (t : InternTable α) :
    Option α → Option (InternTable α)
  | none => some t
  | some x => unintern t x

/-- The table `t'` is in order and has one reference more than `t`, to what `x` points to. -/
structure InternTable.Adds (t : InternTable α) (x : Option α) (t' : InternTable α) : Prop where
  ok : t'.Ok hashKey hashCmp
  refcnt : ∀ z, t'.refcnt z = t.refcnt z + if x = some z then 1 else 0

/-- The table `t'` is in order and has one reference less. -/
structure InternTable.Removes (t : InternTable α) (x : Option α) (t' : InternTable α) : Prop where
  ok : t'.Ok hashKey hashCmp
  refcnt : ∀ z, t.refcnt z = t'.refcnt z + if x = some z then 1 else 0

/-- One function interns in such tables, and the other one drops references. -/
structure Interns (f : InternTable α → α → Option (α × InternTable α))
    (g : InternTable α → α → Option (InternTable α)) :
    Prop where
  adds : ∀ {t x}, t.Ok hashKey hashCmp → t.refcnt x = 0 →
    ∃ y t', f t x = some (y, t') ∧ t.Adds hashKey hashCmp (some y) t'
  removes : ∀ {t x}, t.Ok hashKey hashCmp → 0 < t.refcnt x → ∃ t', g t x = some t' ∧
    t.Removes hashKey hashCmp (some x) t'

end Tables

section Specs
variable {α : Type} [DecidableEq α] {hashKey : α → UInt32} {hashCmp : α → α → Bool} {t : InternTable α} {x : α}
  {f : InternTable α → α → Option (α × InternTable α)} {g : InternTable α → α → Option (InternTable α)}

theorem intern_eq_internAny (hx : t.refcnt x = 0) : intern hashKey hashCmp t x = internAny hashKey hashCmp t x := by
  rw [intern, if_pos hx]
  rfl

theorem uninternAny_eq {t' : InternTable α} (h : unintern hashKey hashCmp t x = some t') :
    uninternAny hashKey hashCmp t x = t' := by
  unfold unintern at h
  unfold uninternAny
  dsimp only at h ⊢
  split_ifs at h with hlast
  · rw [if_pos hlast]
    split at h
    · rename_i hrel
      cases h
      rw [hrel]
    · cases h
  · rw [if_neg hlast]
    exact some.inj h

theorem update_succ (refcnt : α → Nat) (x z : α) :
    update refcnt x (refcnt x + 1) z = refcnt z + if some x = some z then 1 else 0 := by
  by_cases hz : z = x
  · rw [hz, update_self, if_pos rfl]
  · rw [update_of_ne hz, if_neg fun h => hz (some.inj h).symm, Nat.add_zero]

theorem interns_intern (heq : Equivalence fun a b => hashCmp a b = true) :
    Interns hashKey hashCmp (intern hashKey hashCmp) (unintern hashKey hashCmp) where
  adds ht hx := by
    obtain ⟨y, t', hint, hok, hrc, -⟩ := intern_spec heq ht hx
    refine ⟨y, t', hint, hok, fun z => ?_⟩
    rw [hrc, update_succ]
  removes {t x} ht hx := by
    obtain ⟨t', hunintern, hok, hrc⟩ := unintern_spec heq ht hx
    refine ⟨t', hunintern, hok, fun z => ?_⟩
    rw [hrc]
    by_cases hz : z = x
    · rw [hz, update_self, if_pos rfl]
      omega
    · rw [update_of_ne hz, if_neg fun h => hz (some.inj h).symm, Nat.add_zero]

theorem interns_internAny (heq : Equivalence fun a b => hashCmp a b = true) :
    Interns hashKey hashCmp (internAny hashKey hashCmp) fun t x => some (uninternAny hashKey hashCmp t x) where
  adds ht hx := by
    rw [← intern_eq_internAny hx]
    exact (interns_intern heq).adds ht hx
  removes ht hx := by
    obtain ⟨t', hunintern, hremoves⟩ := (interns_intern heq).removes ht hx
    exact ⟨t', congrArg some (uninternAny_eq hunintern), hremoves⟩

section
variable (ht : t.Ok hashKey hashCmp)
include ht

theorem takeRef_adds
    (hf : t.refcnt x = 0 → ∃ y t', f t x = some (y, t') ∧ t.Adds hashKey hashCmp (some y) t') :
    ∃ y t', takeRef f t x = some (y, t') ∧ t.Adds hashKey hashCmp (some y) t' := by
  unfold takeRef
  split_ifs with hx
  · exact hf hx
  refine ⟨x, _, rfl, ⟨ht.keyed, ht.distinct, fun z => ?_⟩, update_succ t.refcnt x⟩
  rw [pos_update_succ, ht.live]
  constructor
  · exact Or.inr
  · rintro (rfl | hz)
    · exact Nat.pos_of_ne_zero hx
    · exact hz

theorem takePointer_adds (p : Option α)
    (hf : ∀ x, t.refcnt x = 0 → ∃ y t', f t x = some (y, t') ∧ t.Adds hashKey hashCmp (some y) t') :
    ∃ y t', takePointer f t p = some (y, t') ∧ t.Adds hashKey hashCmp y t' := by
  cases p with
  | none => exact ⟨none, t, rfl, ht, fun z => rfl⟩
  | some x =>
    obtain ⟨y, t', htake, hadds⟩ := takeRef_adds ht (hf x)
    exact ⟨some y, t', by rw [takePointer, htake]; rfl, hadds⟩

theorem dropPointer_removes {p : Option α}
    (hg : ∀ x, p = some x → ∃ t', g t x = some t' ∧ t.Removes hashKey hashCmp (some x) t') :
    ∃ t', dropPointer g t p = some t' ∧ t.Removes hashKey hashCmp p t' := by
  cases p with
  | none => exact ⟨t, rfl, ht, fun z => rfl⟩
  | some x => exact hg x rfl

end

end Specs

/-! ## The ledger -/

section Counts
variable {α β : Type} [DecidableEq α] (hashKey : α → UInt32) (hashCmp : α → α → Bool)

/-- The references to the objects of a table are those of the references `refs` to records, each of which uses one
object at most, and those from elsewhere. -/
structure Counts (t : InternTable α) (uses : β → Option α) (refs : List β) (elsewhere : List α) : Prop where
  ok : t.Ok hashKey hashCmp
  refcnt : ∀ z, t.refcnt z = refs.countP (fun b => uses b = some z) + elsewhere.count z

namespace Counts

variable {hashKey hashCmp} {t t' : InternTable α} {uses : β → Option α} {refs : List β} {elsewhere : List α}
  {b : β} {x : α}

theorem empty : Counts hashKey hashCmp .empty uses ([] : List β) [] := ⟨InternTable.empty_ok, fun _ => rfl⟩

section
variable (h : Counts hashKey hashCmp t uses refs elsewhere)
include h

theorem take (ht : t.Adds hashKey hashCmp (uses b) t') : Counts hashKey hashCmp t' uses (b :: refs) elsewhere := by
  refine ⟨ht.ok, fun z => ?_⟩
  rw [ht.refcnt, h.refcnt, countP_cons]
  simp only [decide_eq_true_eq]
  omega

theorem drop [DecidableEq β] (hb : b ∈ refs)
    (ht : t.Removes hashKey hashCmp (uses b) t') : Counts hashKey hashCmp t' uses (refs.erase b) elsewhere := by
  refine ⟨ht.ok, fun z => ?_⟩
  have hcnt := (perm_cons_erase hb).countP_eq fun b => decide (uses b = some z)
  have hold := h.refcnt z
  rw [ht.refcnt z, hcnt, countP_cons] at hold
  simp only [decide_eq_true_eq] at hold
  omega

theorem hold (ht : t.Adds hashKey hashCmp (some x) t') : Counts hashKey hashCmp t' uses refs (x :: elsewhere) := by
  refine ⟨ht.ok, fun z => ?_⟩
  rw [ht.refcnt, h.refcnt, count_cons]
  simp only [beq_iff_eq, some.injEq]
  omega

theorem release (hx : x ∈ elsewhere)
    (ht : t.Removes hashKey hashCmp (some x) t') : Counts hashKey hashCmp t' uses refs (elsewhere.erase x) := by
  refine ⟨ht.ok, fun z => ?_⟩
  have hcnt := (perm_cons_erase hx).count_eq z
  have hold := h.refcnt z
  rw [ht.refcnt z, hcnt, count_cons] at hold
  simp only [beq_iff_eq, some.injEq] at hold
  omega

theorem pos_of_uses (hb : b ∈ refs) (hx : uses b = some x) : 0 < t.refcnt x := by
  have : 0 < refs.countP fun b => uses b = some x := countP_pos_iff.2 ⟨b, hb, decide_eq_true hx⟩
  rw [h.refcnt]
  omega

theorem pos_of_elsewhere (hx : x ∈ elsewhere) : 0 < t.refcnt x := by
  rw [h.refcnt]
  have := count_pos_iff.2 hx
  omega

section
variable {f : InternTable α → α → Option (α × InternTable α)} {g : InternTable α → α → Option (InternTable α)}
  (hi : Interns hashKey hashCmp f g)
include hi

theorem takes (p : Option α) : ∃ y t', takePointer f t p = some (y, t') ∧ t.Adds hashKey hashCmp y t' :=
  takePointer_adds h.ok p fun _ => hi.adds h.ok

theorem drops (hb : b ∈ refs) : ∃ t', dropPointer g t (uses b) = some t' ∧ t.Removes hashKey hashCmp (uses b) t' :=
  dropPointer_removes h.ok fun _ hx => hi.removes h.ok (h.pos_of_uses hb hx)

end

/-- The count of an object is the sum over the records that use it, and what is held elsewhere. -/
theorem refcnt_eq_sum [DecidableEq β] (z : α) :
    t.refcnt z = ∑ b ∈ refs.toFinset with uses b = some z, refs.count b + elsewhere.count z := by
  rw [h.refcnt, Finset.sum_filter_count_eq_countP]

end

end Counts

end Counts

end Tarpan.Bgpd
