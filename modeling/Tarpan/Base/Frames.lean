/-
What a program leaves alone. The program changes a state and may fail. A relation between states that holds where
nothing changes, and of two changes one after the other, holds of what a program does if it holds of what its parts do.
-/
import Mathlib.Order.Defs.Unbundled

namespace Tarpan.Base

/-- Where `x` returns, the states before and after it are in the relation. -/
def Frames {S α : Type} (R : S → S → Prop) (x : StateT S Option α) : Prop := ∀ s a s', x s = some (a, s') → R s s'

namespace Frames

variable {S α β : Type} {R : S → S → Prop} [IsPreorder S R] {x : StateT S Option α}

theorem of_pure (a : α) : Frames R (pure a : StateT S Option α) := by
  rintro s _ _ ⟨⟩
  exact refl s

theorem bind {f : α → StateT S Option β} (hx : Frames R x) (hf : ∀ a, Frames R (f a)) : Frames R (x >>= f) := by
  intro s b s' h
  obtain ⟨⟨a, r⟩, hr, h⟩ := Option.bind_eq_some_iff.1 h
  exact trans_of R (hx s a r hr) (hf a r b s' h)

theorem of_get : Frames R (get : StateT S Option S) := by
  rintro s _ _ ⟨⟩
  exact refl s

omit [IsPreorder S R] in
theorem of_modify {g : S → S} (h : ∀ s, R s (g s)) : Frames R (modify g) := by
  rintro s _ _ ⟨⟩
  exact h s

end Frames

end Tarpan.Base
