/-
Trees of bit strings in memory. Every node stands for a string and is linked into one slot: the top of the tree, or one
of the two sides of its parent, whose string it goes on with that side's bit. Nodes are pointers, and the slots and the
pointers to the parents are kept apart, as in memory; `Linked` says that they agree. From this alone every node is
reached from the top, no two nodes have one string, and a walk that follows the bits of a string meets the nodes that
lie above it.
-/
import Tarpan.Base.BitString

namespace Tarpan.Base

open List Function Option Prod

/-- A slot is the top, or a side of a node. A node has its string and the pointer to its parent. -/
@[ext]
structure PrefixTree (ν : Type) where
  slot : Option (ν × Bool) → Option ν
  node : ν → Option (List Bool × Option ν)

namespace PrefixTree

variable {ν : Type} {T : PrefixTree ν} {s s' : Option (ν × Bool)} {a c d x : ν} {b : Bool} {k u w : List Bool}
  {q q' o : Option ν}

/-- A node with the string `k` may stand in the slot. -/
def Fits (T : PrefixTree ν) (s : Option (ν × Bool)) (k : List Bool) : Prop :=
  ∀ a b, s = some (a, b) → ∃ u q, T.node a = some (u, q) ∧ u ++ [b] <+: k

/-- What stands in a slot is a node that points back and fits there, and every node stands in one. -/
structure Linked (T : PrefixTree ν) : Prop where
  held : ∀ {s c}, T.slot s = some c → ∃ k, T.node c = some (k, s.map fst) ∧ T.Fits s k
  placed : ∀ {c k q}, T.node c = some (k, q) → ∃ s, T.slot s = some c

/-- The nodes that are reached from a pointer. -/
inductive Reach (T : PrefixTree ν) : Option ν → ν → Prop
  | here {a : ν} : Reach T (some a) a
  | down {a c : ν} (b : Bool) (h : Reach T (T.slot (some (a, b))) c) : Reach T (some a) c

theorem key_eq (ha : T.node a = some (u, q)) (ha' : T.node a = some (w, q')) : u = w := by
  rw [ha, some.injEq, Prod.mk.injEq] at ha'
  exact ha'.1

theorem Fits.side (h : T.Fits (some (a, b)) k) (ha : T.node a = some (u, q)) : u ++ [b] <+: k := by
  obtain ⟨u', q', ha', hu'⟩ := h a b rfl
  exact key_eq ha' ha ▸ hu'

theorem Reach.concat (ho : T.Reach o a) (hc : T.slot (some (a, b)) = some c) : T.Reach o c := by
  induction ho with
  | here => exact .down b (by rw [hc]; exact .here)
  | down b' _ ih => exact .down b' (ih hc)

theorem Reach.parent (hc : T.Reach o c) : o = some c ∨ ∃ a b, T.Reach o a ∧ T.slot (some (a, b)) = some c := by
  induction hc with
  | here => exact .inl rfl
  | down b _ ih =>
    rcases ih with hs | ⟨a, b', ha, hs⟩
    · exact .inr ⟨_, b, .here, hs⟩
    · exact .inr ⟨a, b', .down b ha, hs⟩

namespace Linked

variable (h : T.Linked)
include h

variable {q : Option ν}

theorem side (ha : T.node a = some (u, q)) (hc : T.slot (some (a, b)) = some c) :
    ∃ k, T.node c = some (k, some a) ∧ u ++ [b] <+: k := by
  obtain ⟨k, hk, hfits⟩ := h.held hc
  exact ⟨k, hk, hfits.side ha⟩

theorem place (hs : T.slot s = some c) (hc : T.node c = some (k, q)) : q = s.map fst ∧ T.Fits s k := by
  obtain ⟨k', hk', hfits⟩ := h.held hs
  rw [hc, some.injEq, Prod.mk.injEq] at hk'
  exact ⟨hk'.2, hk'.1 ▸ hfits⟩

theorem slot_apart (hs : T.slot s = some c) (hc : T.node c = some (k, q)) : s.map fst ≠ some c := by
  intro hsc
  obtain ⟨⟨a, b⟩, rfl, rfl⟩ := map_eq_some_iff.1 hsc
  exact ne_of_side ((h.place hs hc).2.side hc) rfl

theorem slot_unique (hs : T.slot s = some c) (hs' : T.slot s' = some c) : s = s' := by
  obtain ⟨k, hk, hfits⟩ := h.held hs
  obtain ⟨hpar, hfits'⟩ := h.place hs' hk
  cases s with
  | none =>
    cases s' with
    | none => rfl
    | some x => cases hpar
  | some x =>
    cases s' with
    | none => cases hpar
    | some y =>
      obtain ⟨a, b⟩ := x
      obtain ⟨a', b'⟩ := y
      obtain rfl : a = a' := some.inj hpar
      obtain ⟨u, q, ha, hu⟩ := hfits a b rfl
      rw [side_unique hu (hfits'.side ha)]

theorem reach_top : ∀ {k : List Bool} {q : Option ν} {c : ν}, T.node c = some (k, q) → T.Reach (T.slot none) c := by
  intro k
  induction hn : k.length using Nat.strong_induction_on generalizing k with
  | _ n ih =>
    subst hn
    intro q c hc
    obtain ⟨s, hs⟩ := h.placed hc
    obtain ⟨-, hfits⟩ := h.place hs hc
    cases s with
    | none =>
      rw [hs]
      exact .here
    | some x =>
      obtain ⟨a, b⟩ := x
      obtain ⟨u, q', ha, hu⟩ := hfits a b rfl
      exact (ih u.length (length_lt_of_side hu) rfl ha).concat hs

section
variable (ha : T.node a = some (u, q))
include ha

section
variable {q' : Option ν} (hk : T.node c = some (k, q'))
include hk

theorem prefix_of_reach (hc : T.Reach (some a) c) : u <+: k := by
  generalize ho : some a = o at hc
  induction hc generalizing a u q with
  | here =>
    cases ho
    exact key_eq ha hk ▸ prefix_refl u
  | @down a' c b hdown ih =>
    cases ho
    cases hd : T.slot (some (a', b)) with
    | none =>
      rw [hd] at hdown
      cases hdown
    | some d =>
      obtain ⟨v, hv, hside⟩ := h.side ha hd
      exact (prefix_of_side hside).trans (ih hv hk hd.symm)

theorem side_of_reach (hc : T.Reach (T.slot (some (a, b))) c) : u ++ [b] <+: k := by
  cases hd : T.slot (some (a, b)) with
  | none =>
    rw [hd] at hc
    cases hc
  | some d =>
    rw [hd] at hc
    obtain ⟨v, hv, hside⟩ := h.side ha hd
    exact hside.trans (h.prefix_of_reach hv hk hc)

/-- A node that is reached and whose string lies above `w` is the node itself, or it is reached over the side on
which `w` lies. -/
theorem reach_toward (hw : u ++ [b] <+: w) (hc : T.Reach (some a) c) (hkw : k <+: w) :
    c = a ∨ T.Reach (T.slot (some (a, b))) c := by
  cases hc with
  | here => exact .inl rfl
  | down b' hdown =>
    have hside := h.side_of_reach ha hk hdown
    exact .inr (side_unique (hside.trans hkw) hw ▸ hdown)

theorem reach_side (hside : u ++ [b] <+: k) (hc : T.Reach (some a) c) : T.Reach (T.slot (some (a, b))) c := by
  refine (h.reach_toward ha hk hside hc (prefix_refl k)).resolve_left ?_
  rintro rfl
  exact ne_of_side hside (key_eq ha hk)

end

end

theorem node_injective (hc : T.node c = some (k, q)) (hd : T.node d = some (k, q')) : c = d := by
  have hrc := h.reach_top hc
  have hrd := h.reach_top hd
  have htop : ∀ a, T.slot none = some a → ∃ u q, T.node a = some (u, q) := fun a ha => by
    obtain ⟨u, hu, -⟩ := h.held ha
    exact ⟨u, _, hu⟩
  generalize T.slot none = o at hrc hrd htop
  induction hrc with
  | @here a =>
    cases hrd with
    | here => rfl
    | down b hdown => exact absurd rfl (ne_of_side (h.side_of_reach hc hd hdown))
  | @down a c b hdown ih =>
    obtain ⟨u, q'', ha⟩ := htop a rfl
    have hside := h.side_of_reach ha hc hdown
    refine ih hc (h.reach_side ha hd hside hrd) fun d hd' => ?_
    obtain ⟨v, hv, -⟩ := h.held hd'
    exact ⟨v, _, hv⟩

end Linked

/-! ## Changes -/

section Changes
variable [DecidableEq ν]

section
variable (T : PrefixTree ν) (s : Option (ν × Bool)) (c : ν) (k : List Bool)

/-- A new node goes into an empty slot. -/
def attach : PrefixTree ν where
  slot := update T.slot s (some c)
  node := update T.node c (some (k, s.map fst))

/-- A new node goes between a slot and the node `d` in it, which has the string `kd`. -/
def interpose (b : Bool) (d : ν) (kd : List Bool) : PrefixTree ν where
  slot := update (update T.slot s (some c)) (some (c, b)) (some d)
  node := update (update T.node c (some (k, s.map fst))) d (some (kd, some c))

/-- The slots of other nodes than `c`. -/
def slotsWithout (s : Option (ν × Bool)) : Option ν := if s.map fst = some c then none else T.slot s

/-- A node with one child at most is taken out, and the child comes into its slot. -/
def splice (child : Option (ν × List Bool)) : PrefixTree ν where
  slot := update (T.slotsWithout c) s (child.map fst)
  node x := if x = c then none else
    match child with
    | none => T.node x
    | some (d, kd) => if x = d then some (kd, s.map fst) else T.node x

end

variable (s' : Option (ν × Bool))

theorem attach_slot : (T.attach s c k).slot s' = if s' = s then some c else T.slot s' := update_apply ..

theorem attach_node (x : ν) : (T.attach s c k).node x = if x = c then some (k, s.map fst) else T.node x :=
  update_apply ..

variable {kd : List Bool}

theorem interpose_slot :
    (T.interpose s c k b d kd).slot s' = if s' = some (c, b) then some d else if s' = s then some c else T.slot s' := by
  unfold interpose
  dsimp only
  rw [update_apply, update_apply]

theorem interpose_node (x : ν) :
    (T.interpose s c k b d kd).node x =
      if x = d then some (kd, some c) else if x = c then some (k, s.map fst) else T.node x := by
  unfold interpose
  dsimp only
  rw [update_apply, update_apply]

variable {child : Option (ν × List Bool)}

theorem splice_slot :
    (T.splice s c child).slot s' =
      if s' = s then child.map fst else if s'.map fst = some c then none else T.slot s' := by
  unfold splice slotsWithout
  dsimp only
  rw [update_apply]

theorem splice_node_of_ne (hx : x ≠ c) (hchd : child.map fst ≠ some x) : (T.splice s c child).node x = T.node x := by
  unfold splice
  dsimp only
  rw [if_neg hx]
  cases child with
  | none => rfl
  | some v => exact if_neg fun h => hchd (by rw [h]; rfl)

theorem splice_node_child (hd : d ≠ c) : (T.splice s c (some (d, kd))).node d = some (kd, s.map fst) := by
  unfold splice
  dsimp only
  rw [if_neg hd, if_pos rfl]

omit [DecidableEq ν] in
theorem ne_of_node {v : List Bool × Option ν} (hc : T.node c = none) (hx : T.node x = some v) : x ≠ c := by
  rintro rfl
  rw [hc] at hx
  cases hx

/-- The node `c` in the slot `s` has the child on the side `b` at most. -/
structure Lone (T : PrefixTree ν) (s : Option (ν × Bool)) (c : ν) (k : List Bool) (b : Bool)
    (child : Option (ν × List Bool)) : Prop where
  slot : T.slot s = some c
  node : T.node c = some (k, s.map fst)
  other : T.slot (some (c, !b)) = none
  link : T.slot (some (c, b)) = child.map fst
  key : ∀ {d kd}, child = some (d, kd) → T.node d = some (kd, some c)

namespace Lone

variable {s'} (hl : T.Lone s c k b child)
include hl

omit [DecidableEq ν] in
/-- The slots of `c` are those of its side `b`, where the child is, and of the other one. -/
theorem own (hx : T.slot s' = some x) (ha : s'.map fst = some c) : child.map fst = some x := by
  obtain ⟨⟨a, b'⟩, rfl, rfl⟩ := map_eq_some_iff.1 ha
  by_cases hb : b' = b
  · rw [← hl.link, ← hb, hx]
  · rw [Bool.eq_not_of_ne hb, hl.other] at hx
    cases hx

/-- What fits elsewhere still does. -/
theorem fits (hs' : s'.map fst ≠ some c) (hfits : T.Fits s' w) : (T.splice s c child).Fits s' w := by
  intro a b' heq
  obtain ⟨u, q, ha, hu⟩ := hfits a b' heq
  have hac : a ≠ c := by
    rintro rfl
    exact hs' (by rw [heq]; rfl)
  cases hch : child with
  | none => exact ⟨u, q, by rw [splice_node_of_ne hac (by simp), ha], hu⟩
  | some v =>
    obtain ⟨d, kd⟩ := v
    by_cases had : a = d
    · subst had
      exact ⟨kd, _, splice_node_child hac, key_eq ha (hl.key hch) ▸ hu⟩
    refine ⟨u, q, ?_, hu⟩
    rw [splice_node_of_ne hac, ha]
    rintro ⟨⟩
    exact had rfl

variable (h : T.Linked)
include h

omit [DecidableEq ν] in
theorem side (hd : child = some (d, kd)) : k ++ [b] <+: kd := by
  have hlink := hl.link
  rw [hd] at hlink
  obtain ⟨kd', hd', hside⟩ := h.side hl.node hlink
  exact key_eq hd' (hl.key hd) ▸ hside

omit [DecidableEq ν] in
theorem child_ne (hd : child = some (d, kd)) : d ≠ c := by
  rintro rfl
  exact ne_of_side (hl.side h hd) (key_eq hl.node (hl.key hd))

/-- The child comes to the place of `c`. -/
theorem held_child (hd : child = some (d, kd)) :
    (T.splice s c child).node d = some (kd, s.map fst) ∧ (T.splice s c child).Fits s kd := by
  refine ⟨hd ▸ splice_node_child (hl.child_ne h hd), hl.fits (h.slot_apart hl.slot hl.node) ?_⟩
  intro a b' hab
  obtain ⟨u, q, ha, hu⟩ := (h.place hl.slot hl.node).2 a b' hab
  exact ⟨u, q, ha, hu.trans (prefix_of_side (hl.side h hd))⟩

end Lone

namespace Linked

variable (h : T.Linked)
include h

theorem attach (hs : T.slot s = none) (hc : T.node c = none) (hfits : T.Fits s k) : (T.attach s c k).Linked := by
  have hother : ∀ {x v}, T.node x = some v → (T.attach s c k).node x = some v := fun hx => by
    rw [attach_node, if_neg (ne_of_node hc hx), hx]
  have hstay : ∀ {s' k'}, T.Fits s' k' → (T.attach s c k).Fits s' k' := by
    intro s' k' hfits' a b hs'
    obtain ⟨u, q, ha, hu⟩ := hfits' a b hs'
    exact ⟨u, q, hother ha, hu⟩
  constructor
  · intro s' c' hs'
    rw [attach_slot] at hs'
    split_ifs at hs' with heq
    · cases hs'
      rw [heq]
      exact ⟨k, by rw [attach_node, if_pos rfl], hstay hfits⟩
    · obtain ⟨k', hk', hfits'⟩ := h.held hs'
      exact ⟨k', hother hk', hstay hfits'⟩
  · intro c' k' q hc'
    rw [attach_node] at hc'
    split_ifs at hc' with heq
    · exact ⟨s, by rw [attach_slot, if_pos rfl, heq]⟩
    obtain ⟨s', hs'⟩ := h.placed hc'
    refine ⟨s', ?_⟩
    rw [attach_slot, if_neg, hs']
    rintro rfl
    rw [hs] at hs'
    cases hs'

theorem interpose {kd : List Bool} (hs : T.slot s = some d) (hc : T.node c = none)
    (hd : T.node d = some (kd, s.map fst)) (hfits : T.Fits s k) (hside : k ++ [b] <+: kd) :
    (T.interpose s c k b d kd).Linked := by
  have hcd : c ≠ d := (ne_of_node hc hd).symm
  have hcnode : (T.interpose s c k b d kd).node c = some (k, s.map fst) := by
    rw [interpose_node, if_neg hcd, if_pos rfl]
  have hdnode : (T.interpose s c k b d kd).node d = some (kd, some c) := by rw [interpose_node, if_pos rfl]
  have hother : ∀ {x v}, x ≠ d → T.node x = some v → (T.interpose s c k b d kd).node x = some v := fun hxd hx => by
    rw [interpose_node, if_neg hxd, if_neg (ne_of_node hc hx), hx]
  -- the strings stay, also that of `d`
  have hstay : ∀ {s' k'}, T.Fits s' k' → (T.interpose s c k b d kd).Fits s' k' := by
    intro s' k' hfits' a b' hs'
    obtain ⟨u, q, ha, hu⟩ := hfits' a b' hs'
    by_cases had : a = d
    · subst had
      exact ⟨kd, some c, hdnode, key_eq ha hd ▸ hu⟩
    · exact ⟨u, q, hother had ha, hu⟩
  have hfr : ∀ {s' k'}, T.Fits s' k' → s' ≠ some (c, b) := by
    rintro s' k' hfits' rfl
    obtain ⟨u, q, ha, -⟩ := hfits' c b rfl
    exact ne_of_node hc ha rfl
  constructor
  · intro s' c' hs'
    rw [interpose_slot] at hs'
    split at hs'
    · rename_i heq
      cases hs'
      refine ⟨kd, by rw [hdnode, heq]; rfl, ?_⟩
      intro a b' hab
      rw [heq, some.injEq] at hab
      obtain ⟨rfl, rfl⟩ := hab
      exact ⟨k, _, hcnode, hside⟩
    split_ifs at hs' with heq
    · cases hs'
      rw [heq]
      exact ⟨k, hcnode, hstay hfits⟩
    obtain ⟨k', hk', hfits'⟩ := h.held hs'
    have hcd' : c' ≠ d := by
      rintro rfl
      exact heq (h.slot_unique hs' hs)
    exact ⟨k', hother hcd' hk', hstay hfits'⟩
  · intro c' k' q hc'
    rw [interpose_node] at hc'
    split at hc'
    · rename_i heq
      exact ⟨some (c, b), by rw [interpose_slot, if_pos rfl, heq]⟩
    rename_i hcd'
    split_ifs at hc' with heq
    · exact ⟨s, by rw [interpose_slot, if_neg (hfr hfits), if_pos rfl, heq]⟩
    obtain ⟨s', hs'⟩ := h.placed hc'
    obtain ⟨k'', -, hfits'⟩ := h.held hs'
    refine ⟨s', ?_⟩
    rw [interpose_slot, if_neg (hfr hfits'), if_neg, hs']
    rintro rfl
    rw [hs] at hs'
    exact hcd' (some.inj hs').symm

theorem splice (hl : T.Lone s c k b child) : (T.splice s c child).Linked := by
  constructor
  · intro s' c' hs'
    rw [splice_slot] at hs'
    split_ifs at hs' with hs's hs'c
    · obtain ⟨⟨d, kd⟩, hch, rfl⟩ := map_eq_some_iff.1 hs'
      exact ⟨kd, hs's ▸ hl.held_child h hch⟩
    obtain ⟨k', hk', hfits'⟩ := h.held hs'
    have hc'c : c' ≠ c := by
      rintro rfl
      exact hs's (h.slot_unique hs' hl.slot)
    refine ⟨k', ?_, hl.fits hs'c hfits'⟩
    rw [splice_node_of_ne hc'c, hk']
    intro hd
    have := h.slot_unique hs' (hl.link.trans hd)
    exact hs'c (by rw [this]; rfl)
  · intro c' k' q hc'
    have hc'c : c' ≠ c := by
      rintro rfl
      unfold PrefixTree.splice at hc'
      dsimp only at hc'
      rw [if_pos rfl] at hc'
      cases hc'
    by_cases hd : child.map fst = some c'
    · exact ⟨s, by rw [splice_slot, if_pos rfl, hd]⟩
    rw [splice_node_of_ne hc'c hd] at hc'
    obtain ⟨s', hs'⟩ := h.placed hc'
    refine ⟨s', ?_⟩
    rw [splice_slot, if_neg, if_neg, hs']
    · exact fun hs'c => hd (hl.own hs' hs'c)
    · rintro rfl
      rw [hl.slot] at hs'
      exact hc'c (some.inj hs').symm

end Linked

end Changes

end PrefixTree

end Tarpan.Base
