/-
The order of a walk through a tree of bit strings: a node, then what lies on its left side, then what lies on its right
side. The pointers alone lead to the node that comes next after a string, whether or not a node has that string: down
one side where something lies there, and otherwise up to the first parent that was left on its left side.
-/
import Tarpan.Base.PrefixTree

namespace Tarpan.Base

open List

/-- The string `x` comes after all that lies below `u`. -/
def Past (u x : List Bool) : Prop := u < x ∧ ¬ u <+: x

section Past
variable {u v w x y : List Bool}

theorem Past.lt_of_below (h : Past u x) (hy : u <+: y) : y < x := Base.lt_of_below hy h.2 h.1
theorem Past.below (h : Past v x) (hu : v <+: u) : Past u x := ⟨h.lt_of_below hu, fun hux => h.2 (hu.trans hux)⟩

/-- What comes after `w` lies below `u`, or past it, where `u` lies above `w`. -/
theorem past_of_lt (hu : u <+: w) (hlt : w < x) (hx : ¬ u <+: x) : Past u x := ⟨(le_of_isPrefix hu).trans_lt hlt, hx⟩

end Past

namespace PrefixTree

variable {ν : Type} {T : PrefixTree ν} {s : Option (ν × Bool)} {a c d p : ν} {b : Bool} {k u w x : List Bool}
  {q q' : Option ν} {r : Option ν} {P Q : List Bool → Prop}

/-- The pointer is to the first node, in the order of a walk, of those whose string meets the condition. -/
def First (T : PrefixTree ν) (P : List Bool → Prop) : Option ν → Prop
  | none => ∀ d x q, T.node d = some (x, q) → ¬ P x
  | some c => ∃ k q, T.node c = some (k, q) ∧ P k ∧ ∀ d x q, T.node d = some (x, q) → P x → k ≤ x

theorem First.congr (h : T.First P r) (hPQ : ∀ d x q, T.node d = some (x, q) → (P x ↔ Q x)) : T.First Q r := by
  cases r with
  | none => exact fun d x q hd hx => h d x q hd ((hPQ d x q hd).2 hx)
  | some c =>
    obtain ⟨k, q, hc, hk, hleast⟩ := h
    exact ⟨k, q, hc, (hPQ c k q hc).1 hk, fun d x q hd hx => hleast d x q hd ((hPQ d x q hd).2 hx)⟩

theorem First.and (h : T.First P r) (hr : ∀ c k q, r = some c → T.node c = some (k, q) → Q k) :
    T.First (fun x => P x ∧ Q x) r := by
  cases r with
  | none => exact fun d x q hd hx => h d x q hd hx.1
  | some c =>
    obtain ⟨k, q, hc, hk, hleast⟩ := h
    exact ⟨k, q, hc, ⟨hk, hr c k q rfl hc⟩, fun d x q hd hx => hleast d x q hd hx.1⟩

/-- The string lies below that of the node, if there is one. -/
def Below (T : PrefixTree ν) (o : Option ν) (x : List Bool) : Prop :=
  ∀ c k q, o = some c → T.node c = some (k, q) → k <+: x

theorem Below.trans {o : Option ν} (h : T.Below o u) (hux : u <+: x) : T.Below o x :=
  fun c k q hc hk => (h c k q hc hk).trans hux

/-- Where nothing below `u` comes after `w`, what comes next is past `u`. -/
theorem First.of_past (hr : T.First (Past u) r) (hw : u <+: w)
    (hemp : ∀ d x q, T.node d = some (x, q) → u <+: x → ¬ w < x) : T.First (w < ·) r := by
  refine hr.congr fun d x q hd => ?_
  constructor
  · intro hx
    exact hx.lt_of_below hw
  · intro hx
    exact past_of_lt hw hx fun hux => hemp d x q hd hux hx

theorem fits_side (ha : T.node a = some (u, q)) (hside : u ++ [b] <+: x) : T.Fits (some (a, b)) x := by
  rintro _ _ ⟨⟩
  exact ⟨u, q, ha, hside⟩

/-- What fits into a slot comes before all later strings that do not. -/
theorem Fits.lt_of_not (hw : T.Fits s w) (hu : T.Fits s u) (hx : w < x) (hfits : ¬ T.Fits s x) : u < x := by
  cases s with
  | none => exact absurd nofun hfits
  | some y =>
    obtain ⟨p, b⟩ := y
    obtain ⟨v, q, hp, hvw⟩ := hw p b rfl
    exact (past_of_lt hvw hx fun hvx => hfits (fits_side hp hvx)).lt_of_below (hu.side hp)

namespace Linked

variable (h : T.Linked)
include h

theorem fits (hs : T.slot s = some a) (ha : T.node a = some (u, q)) : T.Fits s u := (h.place hs ha).2

theorem reach_of_prefix : ∀ {x u : List Bool} {a d : ν} {q q' : Option ν}, T.node a = some (u, q) →
    T.node d = some (x, q') → u <+: x → T.Reach (some a) d := by
  intro x
  induction hn : x.length using Nat.strong_induction_on generalizing x with
  | _ n ih =>
    subst hn
    intro u a d q q' ha hd hux
    by_cases heq : u = x
    · rw [h.node_injective ha (heq ▸ hd)]
      exact .here
    obtain ⟨s, hs⟩ := h.placed hd
    have hfits := h.fits hs hd
    -- a node that `d` is reached from cannot lie below `d`
    have habove : ¬ T.Reach (some d) a := by
      intro hrch
      have hxu := h.prefix_of_reach hd ha hrch
      exact heq (hux.eq_of_length (le_antisymm hux.length_le hxu.length_le))
    cases s with
    | none =>
      have := h.reach_top ha
      rw [hs] at this
      exact absurd this habove
    | some y =>
      obtain ⟨p, b⟩ := y
      obtain ⟨v, q'', hp, hv⟩ := hfits p b rfl
      rcases prefix_or_prefix_of_prefix hux (prefix_of_side hv) with huv | hvu
      · exact (ih v.length (length_lt_of_side hv) rfl ha hp huv).concat hs
      by_cases hne : v = u
      · exact (ih v.length (length_lt_of_side hv) rfl ha hp (hne ▸ prefix_refl v)).concat hs
      obtain ⟨b', hside⟩ := exists_side hvu hne
      obtain rfl : b' = b := side_unique (hside.trans hux) hv
      have hlt : u.length < x.length := lt_of_le_of_ne hux.length_le fun hlen => heq (hux.eq_of_length hlen)
      have hrch := h.reach_side hp ha hside (ih u.length hlt rfl hp ha hvu)
      rw [hs] at hrch
      exact absurd hrch habove

/-- A node whose string fits into a slot is reached over it. -/
theorem reach_of_fits (hd : T.node d = some (x, q)) (hfits : T.Fits s x) : T.Reach (T.slot s) d := by
  cases s with
  | none => exact h.reach_top hd
  | some y =>
    obtain ⟨a, b⟩ := y
    obtain ⟨u, q', ha, hside⟩ := hfits a b rfl
    exact h.reach_side ha hd hside (h.reach_of_prefix ha hd (prefix_of_side hside))

section
variable (hd : T.node d = some (x, q')) (ha : T.node a = some (u, q))
include hd ha

/-- The node in a slot lies above all whose string fits there. -/
theorem prefix_of_fits (hs : T.slot s = some a) (hfits : T.Fits s x) : u <+: x := by
  have hrch := h.reach_of_fits hd hfits
  rw [hs] at hrch
  exact h.prefix_of_reach ha hd hrch

theorem not_side (hs : T.slot (some (a, b)) = none) : ¬ u ++ [b] <+: x := by
  intro hside
  have hrch := h.reach_of_fits hd (fits_side ha hside)
  rw [hs] at hrch
  cases hrch

/-- What lies below the node on a side lies below the child there. -/
theorem prefix_of_side_of_slot (hs : T.slot (some (a, b)) = some c)
    (hc : T.node c = some (k, r)) (hside : u ++ [b] <+: x) : k <+: x :=
  h.prefix_of_fits hd hc hs (fits_side ha hside)

end

/-! ## What comes next after a node, or after what lies below it -/

theorem first_top : T.First (fun _ => True) (T.slot none) := by
  cases hs : T.slot none with
  | none =>
    intro d x q hd _
    have := h.reach_top hd
    rw [hs] at this
    cases this
  | some a =>
    obtain ⟨u, ha, -⟩ := h.held hs
    refine ⟨u, _, ha, trivial, fun d x q hd _ => ?_⟩
    exact le_of_isPrefix (h.prefix_of_fits hd ha hs nofun)

variable (ha : T.node a = some (u, q))
include ha

theorem first_left (hs : T.slot (some (a, false)) = some c) : T.First (u < ·) (some c) := by
  obtain ⟨k, hc, hside⟩ := h.side ha hs
  refine ⟨k, _, hc, lt_of_isPrefix (prefix_of_side hside) (ne_of_side hside), fun d x q' hd hx => ?_⟩
  by_cases hux : u <+: x
  · obtain ⟨b, hb⟩ := exists_side hux (ne_of_lt hx)
    cases b with
    | false => exact le_of_isPrefix (h.prefix_of_side_of_slot hd ha hs hc hb)
    | true => exact le_of_lt (lt_of_sides hside hb)
  · exact le_of_lt (Past.lt_of_below ⟨hx, hux⟩ (prefix_of_side hside))

/-- Where nothing lies on the left, the right child comes next, after the node and after what would lie on the left. -/
theorem first_right (hemp : T.slot (some (a, false)) = none)
    (hs : T.slot (some (a, true)) = some c) (hw : u <+: w) (hleft : ∀ b, u ++ [b] <+: w → b = false) :
    T.First (w < ·) (some c) := by
  obtain ⟨k, hc, hside⟩ := h.side ha hs
  refine ⟨k, _, hc, ?_, fun d x q' hd hx => ?_⟩
  · by_cases hne : u = w
    · exact hne ▸ lt_of_isPrefix (prefix_of_side hside) (ne_of_side hside)
    obtain ⟨b, hb⟩ := exists_side hw hne
    rw [hleft b hb] at hb
    exact lt_of_sides hb hside
  · by_cases hux : u <+: x
    · obtain ⟨b, hb⟩ := exists_side hux (ne_of_lt ((le_of_isPrefix hw).trans_lt hx))
      cases b with
      | false => exact absurd hb (h.not_side hd ha hemp)
      | true => exact le_of_isPrefix (h.prefix_of_side_of_slot hd ha hs hc hb)
    · exact le_of_lt ((past_of_lt hw hx hux).lt_of_below (prefix_of_side hside))

theorem past_top (hs : T.slot none = some a) : T.First (Past u) none := by
  intro d x q' hd hx
  exact hx.2 (h.prefix_of_fits hd ha hs nofun)

theorem past_left (hs : T.slot (some (p, false)) = some a) (hc : T.slot (some (p, true)) = some c) :
    T.First (Past u) (some c) := by
  obtain ⟨v, q', hp, hleft⟩ := h.fits hs ha p false rfl
  obtain ⟨k, hk, hright⟩ := h.side hp hc
  refine ⟨k, _, hk, ⟨lt_of_sides hleft hright, fun huk => ?_⟩, fun d x q'' hd hx => ?_⟩
  · have := side_unique (hleft.trans huk) hright
    cases this
  · by_cases hvx : v <+: x
    · obtain ⟨b, hb⟩ := exists_side hvx (ne_of_lt ((le_of_isPrefix (prefix_of_side hleft)).trans_lt hx.1))
      cases b with
      | false => exact absurd (h.prefix_of_side_of_slot hd hp hs ha hb) hx.2
      | true => exact le_of_isPrefix (h.prefix_of_side_of_slot hd hp hc hk hb)
    · exact le_of_lt ((past_of_lt (prefix_of_side hleft) hx.1 hvx).lt_of_below (prefix_of_side hright))

section
variable (hs : T.slot (some (p, b)) = some a) (hp : T.node p = some (w, q'))
include hs hp

/-- Past another child, or past the only one, comes what comes past the parent. -/
theorem past_up
    (hlast : b = false → T.slot (some (p, true)) = none) (hd : T.node d = some (x, r)) : Past u x ↔ Past w x := by
  have hside := (h.fits hs ha).side hp
  constructor
  · intro hx
    refine past_of_lt (prefix_of_side hside) hx.1 fun hwx => ?_
    obtain ⟨b', hb'⟩ := exists_side hwx (ne_of_lt ((le_of_isPrefix (prefix_of_side hside)).trans_lt hx.1))
    cases b <;> cases b'
    · exact hx.2 (h.prefix_of_side_of_slot hd hp hs ha hb')
    · exact h.not_side hd hp (hlast rfl) hb'
    · exact absurd (lt_of_sides hb' hside) (not_lt_of_gt hx.1)
    · exact hx.2 (h.prefix_of_side_of_slot hd hp hs ha hb')
  · intro hx
    exact hx.below (prefix_of_side hside)

/-- The parent of a node in a subtree lies in it too, unless the node is its top. -/
theorem below_parent {o : Option ν} (hne : o ≠ some a) (hbelow : T.Below o u) : T.Below o w := by
  rintro l k r rfl hl
  rcases (h.reach_of_prefix hl ha (hbelow l k r rfl hl)).parent with htop | ⟨p', b', hrch, hs'⟩
  · exact absurd htop hne
  · cases h.slot_unique hs hs'
    exact h.prefix_of_reach hl hp hrch

end

/-! ## What comes next after a string that leads to a slot -/

/-- The node in the slot comes next, where it comes after the string. -/
theorem first_here (hs : T.slot s = some a) (hw : T.Fits s w) (hlt : w < u) : T.First (w < ·) (some a) := by
  refine ⟨u, q, ha, hlt, fun d x q' hd hx => ?_⟩
  by_cases hfits : T.Fits s x
  · exact le_of_isPrefix (h.prefix_of_fits hd ha hs hfits)
  · exact (hw.lt_of_not (h.fits hs ha) hx hfits).le

/-- Where all that lies below the node in the slot comes before the string, what comes next is past the node. -/
theorem first_past_here (hs : T.slot s = some a) (hw : T.Fits s w) (hlt : Past u w)
    (hr : T.First (Past u) r) : T.First (w < ·) r := by
  refine hr.congr fun d x q' hd => ?_
  constructor
  · intro hx
    exact (h.fits hs ha).lt_of_not hw hx.1 fun hfits => hx.2 (h.prefix_of_fits hd ha hs hfits)
  · intro hx
    exact ⟨hlt.1.trans hx, fun hux => absurd (hlt.lt_of_below hux) (not_lt_of_gt hx)⟩

end Linked

end PrefixTree

end Tarpan.Base
