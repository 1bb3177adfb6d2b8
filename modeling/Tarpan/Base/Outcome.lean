/-
Programs that may stop without a result. `Gives x Q` says that a result of `x` has `Q`, `Ends x Q` that there is one and
it has `Q`, and `EndsUnless N x Q` that there is one unless `N`; all go through a program step by step.
-/
import Mathlib.Data.List.Basic

namespace Tarpan.Base

open Option List

variable {β γ : Type} {x y : Option β} {f : β → Option γ} {P Q : β → Prop} {R : γ → Prop} {c : Prop} [Decidable c]
  {b : β} {g : β → γ}

theorem bind_of_some (h : x = some b) : (x >>= f) = f b := by
  rw [h, bind_eq_bind, bind_some]

/-- What `x` returns has `Q`. -/
def Gives (x : Option β) (Q : β → Prop) : Prop := ∀ b, x = some b → Q b

/-- `x` returns, and what it returns has `Q`. -/
def Ends (x : Option β) (Q : β → Prop) : Prop := ∃ b, x = some b ∧ Q b

namespace Gives

theorem none : Gives none Q := by
  rintro b ⟨⟩

theorem some (h : Q b) : Gives (some b) Q := by
  rintro b ⟨⟩
  exact h

theorem bind (h : Gives x P) (hf : ∀ b, P b → Gives (f b) R) : Gives (x >>= f) R := by
  intro r hr
  obtain ⟨b, hb, hr⟩ := bind_eq_some_iff.1 hr
  exact hf b (h b hb) r hr

/-- A step by what it returned. -/
theorem get (hf : ∀ b, x = Option.some b → Gives (f b) R) : Gives (x >>= f) R := bind (fun _ hb => hb) hf

theorem map (h : Gives x fun b => R (g b)) : Gives (x.map g) R := by
  intro r hr
  obtain ⟨b, hb, rfl⟩ := map_eq_some_iff.1 hr
  exact h b hb

theorem ite (hx : c → Gives x Q) (hy : ¬ c → Gives y Q) : Gives (if c then x else y) Q :=
  iteInduction (motive := (Gives · Q)) hx hy

theorem mono (h : Gives x P) (hPQ : ∀ b, P b → Q b) : Gives x Q := fun b hb => hPQ b (h b hb)
theorem and (h : Gives x P) (h' : Gives x Q) : Gives x fun b => P b ∧ Q b := fun b hb => ⟨h b hb, h' b hb⟩

end Gives

namespace Ends

theorem gives (h : Ends x Q) : Gives x Q := by
  obtain ⟨b, rfl, hb⟩ := h
  exact Gives.some hb

theorem some (h : Q b) : Ends (some b) Q := ⟨b, rfl, h⟩

/-- A step whose result is known. -/
theorem next (h : x = Option.some b) (hf : Ends (f b) R) : Ends (x >>= f) R := by
  rw [h]
  exact hf

theorem bind (h : Ends x P) (hf : ∀ b, P b → Ends (f b) R) : Ends (x >>= f) R := by
  obtain ⟨b, rfl, hb⟩ := h
  exact hf b hb

/-- Two steps that are done at once. -/
theorem chain {δ : Type} {g : γ → Option δ} {S : δ → Prop} (h : Ends (x >>= f) R) (hg : ∀ c, R c → Ends (g c) S) :
    Ends (x >>= fun b => f b >>= g) S := by
  obtain ⟨c, hc, hR⟩ := h
  obtain ⟨b, hb, hc⟩ := bind_eq_some_iff.1 hc
  exact next hb (next hc (hg c hR))

theorem map (h : Ends x fun b => R (g b)) : Ends (x.map g) R := by
  obtain ⟨b, rfl, hb⟩ := h
  exact ⟨g b, rfl, hb⟩

theorem ite (hx : c → Ends x Q) (hy : ¬ c → Ends y Q) : Ends (if c then x else y) Q :=
  iteInduction (motive := (Ends · Q)) hx hy

theorem mono (h : Ends x P) (hPQ : ∀ b, P b → Q b) : Ends x Q := by
  obtain ⟨b, hx, hb⟩ := h
  exact ⟨b, hx, hPQ b hb⟩

end Ends

/-- `x` returns what has `Q`, or it does not return and `N`. -/
def EndsUnless (N : Prop) (x : Option β) (Q : β → Prop) : Prop := (x = none → N) ∧ Gives x Q

namespace EndsUnless

variable {N : Prop}

theorem of_ends (h : Ends x Q) : EndsUnless N x Q := by
  obtain ⟨b, rfl, hb⟩ := h
  exact ⟨nofun, Gives.some hb⟩

theorem of_gives (h : Gives x Q) : EndsUnless True x Q := ⟨fun _ => trivial, h⟩

theorem ends (h : EndsUnless False x Q) : Ends x Q := by
  cases hx : x with
  | none => exact (h.1 hx).elim
  | some b => exact .some (h.2 b hx)

theorem some (h : Q b) : EndsUnless N (some b) Q := of_ends (.some h)

theorem bind (h : EndsUnless N x P) (hf : ∀ b, P b → EndsUnless N (f b) R) : EndsUnless N (x >>= f) R := by
  cases hx : x with
  | none => exact ⟨fun _ => h.1 hx, .none⟩
  | some b => exact hf b (h.2 b hx)

theorem map (h : EndsUnless N x fun b => R (g b)) : EndsUnless N (x.map g) R :=
  ⟨fun hx => h.1 (map_eq_none_iff.1 hx), h.2.map⟩

theorem and (h : EndsUnless N x P) (h' : Gives x Q) : EndsUnless N x fun b => P b ∧ Q b := ⟨h.1, h.2.and h'⟩

/-- What every turn of a loop keeps, the loop keeps. -/
theorem foldlM {g : β → γ → Option β} : ∀ {l : List γ} {b : β}, P b → (∀ b, P b → ∀ a ∈ l, EndsUnless N (g b a) P) →
    EndsUnless N (l.foldlM g b) P
  | [], b, hb, _ => some hb
  | a :: l, b, hb, hg => by
    refine bind (hg b hb a (mem_cons_self ..)) fun b' hb' => ?_
    exact foldlM hb' fun b hb c hc => hg b hb c (mem_cons_of_mem _ hc)

theorem ite (hx : c → EndsUnless N x Q) (hy : ¬ c → EndsUnless N y Q) : EndsUnless N (if c then x else y) Q :=
  iteInduction (motive := (EndsUnless N · Q)) hx hy

theorem imp {N' : Prop} (h : EndsUnless N x P) (hN : N → N') (hPQ : ∀ b, P b → Q b) : EndsUnless N' x Q :=
  ⟨fun hx => hN (h.1 hx), h.2.mono hPQ⟩

end EndsUnless

theorem Ends.foldlM {g : β → γ → Option β} {l : List γ} (hb : P b) (hg : ∀ b, P b → ∀ a ∈ l, Ends (g b a) P) :
    Ends (l.foldlM g b) P :=
  (EndsUnless.foldlM hb fun b hb a ha => .of_ends (hg b hb a ha)).ends

end Tarpan.Base
