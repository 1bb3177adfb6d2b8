/-
Finite maps that are visited entry by entry. A loop that changes at each entry only what belongs to its key does at each
key what one step does.
-/
import Mathlib.Data.List.Nodup

namespace Tarpan.Base

open List

/-- A finite map, in the order in which its entries are visited. -/
structure Entries (κ α : Type) where
  list : List (κ × α)
  nodup : (list.map Prod.fst).Nodup

namespace Entries

variable {κ α β σ : Type} [DecidableEq κ]

def get (t : Entries κ α) (k : κ) : Option α := t.list.lookup k
def singleton (k : κ) (v : α) : Entries κ α := ⟨[(k, v)], nodup_singleton k⟩

def erase (t : Entries κ α) (k : κ) : Entries κ α where
  list := t.list.filter (·.1 ≠ k)
  nodup := t.nodup.sublist (filter_sublist.map _)

/-- The loop over the entries. -/
def forEach (t : Entries κ α) (step : σ → κ → α → σ) (s : σ) : σ := t.list.foldl (fun s e => step s e.1 e.2) s

theorem lookup_filter_ne (l : List (κ × α)) (k k' : κ) :
    (l.filter (·.1 ≠ k)).lookup k' = if k' = k then none else l.lookup k' := by
  induction l with
  | nil => simp
  | cons e l ih =>
    obtain ⟨j, v⟩ := e
    by_cases hj : j = k
    · rw [filter_cons_of_neg (by simp [hj]), ih, lookup_cons]
      by_cases hk : k' = k
      · simp [hk]
      · rw [if_neg hk, hj, beq_eq_false_iff_ne.2 hk]
        exact (if_neg hk).symm
    · rw [filter_cons_of_pos (by simp [hj]), lookup_cons, lookup_cons, ih]
      by_cases hk : k' = k
      · subst hk
        rw [if_pos rfl, beq_eq_false_iff_ne.2 (Ne.symm hj)]
        exact (if_pos rfl).symm
      · simp [hk]

variable (t : Entries κ α)

theorem get_erase (k k' : κ) : (t.erase k).get k' = if k' = k then none else t.get k' := lookup_filter_ne t.list k k'

theorem lookup_eq_none_of_notMem : ∀ {l : List (κ × α)} {k : κ}, k ∉ l.map Prod.fst → l.lookup k = none
  | [], _, _ => rfl
  | (j, v) :: l, k, h => by
    rw [map_cons, mem_cons, not_or] at h
    rw [lookup_cons, beq_eq_false_iff_ne.2 h.1]
    exact lookup_eq_none_of_notMem h.2

/-- What is seen at a key after the loop is what one step makes of it, where steps for other keys do not change it. -/
theorem obs_forEach {step : σ → κ → α → σ} (obs : σ → κ → β) (g : κ → α → β → β)
    (hself : ∀ s k v, obs (step s k v) k = g k v (obs s k))
    (hother : ∀ s k v k', k' ≠ k → obs (step s k v) k' = obs s k') (s : σ) (k : κ) :
    obs (t.forEach step s) k = (t.get k).elim (obs s k) fun v => g k v (obs s k) := by
  unfold forEach get
  have hnd := t.nodup
  generalize t.list = l at hnd
  induction l generalizing s with
  | nil => rfl
  | cons e l ih =>
    obtain ⟨j, v⟩ := e
    rw [map_cons, nodup_cons] at hnd
    rw [foldl_cons, ih _ hnd.2, lookup_cons]
    by_cases hk : k = j
    · -- The key comes once, and the rest of the loop leaves it.
      subst hk
      rw [lookup_eq_none_of_notMem hnd.1, beq_self_eq_true]
      exact hself s k v
    · rw [beq_eq_false_iff_ne.2 hk, hother s j v k hk]

omit [DecidableEq κ] in
/-- What no step changes the loop does not change. -/
theorem eq_forEach {step : σ → κ → α → σ} {f : σ → β} (h : ∀ s k v, f (step s k v) = f s) (s : σ) :
    f (t.forEach step s) = f s := by
  unfold forEach
  induction t.list generalizing s with
  | nil => rfl
  | cons e l ih => rw [foldl_cons, ih, h]

end Entries

end Tarpan.Base
