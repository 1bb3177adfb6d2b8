/-
Runs of a machine, step by step. Where a step from a good state leads to a good state exactly if it meets a condition,
the good runs are those whose steps meet it.
-/
import Mathlib.Logic.Basic

namespace Tarpan.Base

variable {σ ω : Type} {step : σ → ω → σ} {P Q : σ → Prop} {K : σ → ω → Prop}

/-- Every state of the run has the property. -/
def Always (step : σ → ω → σ) (P : σ → Prop) : List ω → σ → Prop
  | [], s => P s
  | op :: ops, s => P s ∧ Always step P ops (step s op)

/-- Every step of the run meets the condition. -/
def Meets (step : σ → ω → σ) (K : σ → ω → Prop) : List ω → σ → Prop
  | [], _ => True
  | op :: ops, s => K s op ∧ Meets step K ops (step s op)

instance Meets.decidable [∀ s op, Decidable (K s op)] : ∀ (ops : List ω) (s : σ), Decidable (Meets step K ops s)
  | [], _ => .isTrue trivial
  | op :: ops, s =>
    have := decidable ops (step s op)
    inferInstanceAs (Decidable (_ ∧ _))

theorem Always.head : ∀ {ops : List ω} {s : σ}, Always step P ops s → P s
  | [], _, h => h
  | _ :: _, _, h => h.1

theorem always_of_step (h : ∀ s op, P s → P (step s op)) : ∀ (ops : List ω) {s : σ}, P s → Always step P ops s
  | [], _, hs => hs
  | op :: ops, s, hs => ⟨hs, always_of_step h ops (h s op hs)⟩

theorem Always.and : ∀ {ops : List ω} {s : σ}, Always step P ops s → Always step Q ops s →
    Always step (fun s => P s ∧ Q s) ops s
  | [], _, h, h' => ⟨h, h'⟩
  | _ :: _, _, h, h' => ⟨⟨h.1, h'.1⟩, h.2.and h'.2⟩

theorem Always.mono (hPQ : ∀ s, P s → Q s) : ∀ {ops : List ω} {s : σ}, Always step P ops s → Always step Q ops s
  | [], s, h => hPQ s h
  | _ :: _, s, h => ⟨hPQ s h.1, h.2.mono hPQ⟩

/-- The good runs are those whose steps meet the condition. -/
theorem always_iff_meets (h : ∀ s op, P s → (P (step s op) ↔ K s op)) : ∀ (ops : List ω) {s : σ}, P s →
    (Always step P ops s ↔ Meets step K ops s)
  | [], _, hs => iff_of_true hs trivial
  | op :: ops, s, hs => by
    constructor
    · rintro ⟨-, hrest⟩
      have hnext := hrest.head
      exact ⟨(h s op hs).1 hnext, (always_iff_meets h ops hnext).1 hrest⟩
    · rintro ⟨hmeet, hrest⟩
      have hnext := (h s op hs).2 hmeet
      exact ⟨hs, (always_iff_meets h ops hnext).2 hrest⟩

/-- Steps that meet a condition keep the property. -/
theorem always_of_meets (h : ∀ s op, P s → K s op → P (step s op)) :
    ∀ {ops : List ω} {s : σ}, P s → Meets step K ops s →
    Always step P ops s
  | [], _, hs, _ => hs
  | op :: _, s, hs, hmeets => ⟨hs, always_of_meets h (h s op hs hmeets.1) hmeets.2⟩

end Tarpan.Base
