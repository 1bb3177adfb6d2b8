/-
Two runs of one program side by side. The program changes a state and may fail; from states that a relation
holds of, both runs return with the same result, and the relation holds of the states they end in. With a relation
that forgets a part of the state this says that the part is never looked at.
-/
import Mathlib.Logic.Basic

namespace Tarpan.Base

/-- From states in the relation `R`, of which the first has `P`, both runs of `x` return the same, in states that are
in the relation again, and the first has `Q`. -/
def Lockstep {S α : Type} (R : S → S → Prop) (P : S → Prop) (x : StateT S Option α) (Q : α → S → Prop) : Prop :=
  ∀ s s', R s s' → P s → ∃ a r r', x s = some (a, r) ∧ x s' = some (a, r') ∧ R r r' ∧ Q a r

namespace Lockstep

variable {S α β : Type} {R : S → S → Prop} {P : S → Prop} {Q Q' : α → S → Prop} {x : StateT S Option α}

theorem of_pure {a : α} (h : ∀ s, P s → Q a s) : Lockstep R P (pure a) Q :=
  fun s s' hR hP => ⟨a, s, s', rfl, rfl, hR, h s hP⟩

theorem mono {J : S → Prop} (hx : Lockstep R J x Q') (hP : ∀ s, P s → J s) (hQ : ∀ a s, Q' a s → Q a s) :
    Lockstep R P x Q := by
  intro s s' hR hs
  obtain ⟨a, r, r', h, h', hR', hq⟩ := hx s s' hR (hP s hs)
  exact ⟨a, r, r', h, h', hR', hQ a r hq⟩

theorem bind {f : α → StateT S Option β} {T : β → S → Prop} (hx : Lockstep R P x Q)
    (hf : ∀ a, Lockstep R (Q a) (f a) T) : Lockstep R P (x >>= f) T := by
  intro s s' hR hs
  obtain ⟨a, r, r', h, h', hR', hq⟩ := hx s s' hR hs
  obtain ⟨b, t, t', hf, hf', hT⟩ := hf a r r' hR' hq
  refine ⟨b, t, t', ?_, ?_, hT⟩
  · change (x s).bind (fun p => f p.1 p.2) = _
    rw [h]
    exact hf
  · change (x s').bind (fun p => f p.1 p.2) = _
    rw [h']
    exact hf'

theorem map (hx : Lockstep R P x Q) {T : β → S → Prop} (g : α → β) (hg : ∀ a s, Q a s → T (g a) s) :
    Lockstep R P (fun s => (x s).map fun r => (g r.1, r.2)) T := by
  intro s s' hR hs
  obtain ⟨a, r, r', h, h', hR', hq⟩ := hx s s' hR hs
  refine ⟨g a, r, r', ?_, ?_, hR', hg a r hq⟩
  · exact congrArg _ h
  · exact congrArg _ h'

/-- What the condition says whatever the state is. -/
theorem of_pre {φ : Prop} (h : φ → Lockstep R P x Q) : Lockstep R (fun s => φ ∧ P s) x Q :=
  fun s s' hR hs => h hs.1 s s' hR hs.2

theorem of_exists {ι : Type*} {P : ι → S → Prop} (h : ∀ i, Lockstep R (P i) x Q) :
    Lockstep R (fun s => ∃ i, P i s) x Q :=
  fun s s' hR hs => hs.elim fun i hi => h i s s' hR hi

section
variable {f : S → StateT S Option α} (hsame : ∀ s s', R s s' → P s → f s' = f s)
include hsame

/-- The state itself may be read where what follows does the same for both. -/
theorem get_bind_eq (hf : ∀ s, P s → Lockstep R (· = s) (f s) Q) : Lockstep R P (get >>= f) Q := by
  intro s s' hR hs
  obtain ⟨a, r, r', h, h', hpost⟩ := hf s hs s s' hR rfl
  refine ⟨a, r, r', h, ?_, hpost⟩
  change f s' s' = _
  rw [hsame s s' hR hs]
  exact h'

theorem get_bind (hf : ∀ s, P s → Lockstep R P (f s) Q) : Lockstep R P (get >>= f) Q :=
  get_bind_eq hsame fun s hs => (hf s hs).mono (fun _ ht => ht ▸ hs) fun _ _ => id

end

theorem of_modify {g : S → S} {Q : Unit → S → Prop} (hR : ∀ s s', R s s' → P s → R (g s) (g s'))
    (hg : ∀ s, P s → Q () (g s)) : Lockstep R P (modify g) Q :=
  fun s s' hs hP => ⟨(), g s, g s', rfl, rfl, hR s s' hs hP, hg s hP⟩

end Lockstep

end Tarpan.Base
