/-
Routing tables (lib/table.c). A table is a radix tree in memory: nodes with a prefix, pointers to the parent and to two
children, a count of locks and what the user hangs on it. `route_node_get` may split an edge with a new node in between,
and `route_unlock_node` takes a node out with its last lock, and then perhaps its parent. Memory is a map from addresses
to nodes; new memory comes with the call. `none` is the end of the process: an assertion, or a pointer to no node.
-/
import Mathlib.Data.Set.Card
import Tarpan.Base.PrefixTree
import Tarpan.Lib.PrefixBits

namespace Tarpan.Lib

open Base List Option Function Prod Prefix

/-- `struct route_node`. A lock is an `unsigned int`, so that users hold fewer than `2 ^ 32` of a node. -/
structure RouteNode (afi : Afi) (ι : Type) where
  p : Prefix afi
  parent : Option Nat := none
  link : Bool → Option Nat := fun _ => none
  lock : Nat := 0
  info : Option ι := none

/-- `struct route_table`, with the memory of its nodes. -/
structure RouteTable (afi : Afi) (ι : Type) where
  top : Option Nat := none
  count : Nat := 0
  node : Nat → Option (RouteNode afi ι) := fun _ => none

section Functions
variable {afi : Afi} {ι : Type}

namespace RouteTable

def putNode (t : RouteTable afi ι) (a : Nat) (n : RouteNode afi ι) : RouteTable afi ι :=
  { t with node := update t.node a (some n) }

def modifyNode (t : RouteTable afi ι) (a : Nat) (f : RouteNode afi ι → RouteNode afi ι) : Option (RouteTable afi ι) :=
  (t.node a).map fun n => t.putNode a (f n)

end RouteTable

section
variable (t : RouteTable afi ι) (p : Prefix afi)

def setLink (node new : Nat) : Option (RouteTable afi ι) := do
  let m ← t.node new
  let t ← t.modifyNode node fun n =>
    { n with link := update n.link (prefixBit m.p.octets n.p.prefixlen) (some new) }
  t.modifyNode new fun m => { m with parent := some node }

def routeLockNode (a : Nat) : Option (RouteTable afi ι) := t.modifyNode a fun n => { n with lock := n.lock + 1 }

def lockResult : Option Nat → Option (Option Nat × RouteTable afi ι)
  | none => some (none, t)
  | some a => (routeLockNode t a).map (some a, ·)

/-- The condition of the loops that walk down the tree. -/
def goesOn (n : RouteNode afi ι) (p : Prefix afi) : Bool := n.p.prefixlen ≤ p.prefixlen && prefixMatch n.p p

/-- The loop of `route_node_match`. Every turn comes to a longer prefix, so there are no more turns than bits, and
one. -/
def matchLoop (t : RouteTable afi ι) (p : Prefix afi) : Nat → Option Nat → Option Nat → Option (Option Nat)
  | _, none, matched => some matched
  | 0, some _, _ => none
  | turns + 1, some a, matched => do
    let n ← t.node a
    if goesOn n p then
      let matched := if n.info.isSome then some a else matched
      if n.p.prefixlen = p.prefixlen then some matched
      else matchLoop t p turns (n.link (prefixBit p.octets n.p.prefixlen)) matched
    else some matched

def routeNodeMatch : Option (Option Nat × RouteTable afi ι) := do
  lockResult t (← matchLoop t p (p.prefixlen.toNat + 1) t.top none)

/-- The loop of `route_node_lookup`. -/
def lookupLoop (t : RouteTable afi ι) (p : Prefix afi) : Nat → Option Nat → Option (Option Nat)
  | _, none => some none
  | 0, some _ => none
  | turns + 1, some a => do
    let n ← t.node a
    if goesOn n p then
      if n.p.prefixlen = p.prefixlen then some (if n.info.isSome then some a else none)
      else lookupLoop t p turns (n.link (prefixBit p.octets n.p.prefixlen))
    else some none

def routeNodeLookup : Option (Option Nat × RouteTable afi ι) := do
  lockResult t (← lookupLoop t p (p.prefixlen.toNat + 1) t.top)

/-- How the loop of `route_node_get` ends: with a node for the prefix, or with `match` and `node`. -/
inductive GetStop where
  | found (node : Nat)
  | place (matched : Option Nat) (node : Option Nat)

/-- The loop of `route_node_get`; `matched` is `match`. -/
def getLoop (t : RouteTable afi ι) (p : Prefix afi) : Nat → Option Nat → Option Nat → Option GetStop
  | _, none, matched => some (.place matched none)
  | 0, some _, _ => none
  | turns + 1, some a, matched => do
    let n ← t.node a
    if goesOn n p then
      if n.p.prefixlen = p.prefixlen then some (.found a)
      else getLoop t p turns (n.link (prefixBit p.octets n.p.prefixlen)) (some a)
    else some (.place matched (some a))

/-- A new node is linked to `match`, or is the top. -/
def linkNew (matched : Option Nat) (new : Nat) : Option (RouteTable afi ι) :=
  match matched with
  | some a => setLink t a new
  | none => some { t with top := some new }

/-- `route_node_get`; two nodes at most are made, at `mem` and `mem'`. -/
def routeNodeGet (mem mem' : Nat) : Option (Nat × RouteTable afi ι) := do
  match ← getLoop t p (p.prefixlen.toNat + 1) t.top none with
  | .found a => (routeLockNode t a).map (a, ·)
  | .place matched none =>
    let t ← linkNew (t.putNode mem { p }) matched mem
    (routeLockNode { t with count := t.count + 1 } mem).map (mem, ·)
  | .place matched (some a) =>
    let n ← t.node a
    let t ← setLink (t.putNode mem { p := routeCommon n.p p }) mem a
    let t ← linkNew t matched mem
    if (routeCommon n.p p).prefixlen ≠ p.prefixlen then
      let t ← setLink (t.putNode mem' { p }) mem mem'
      (routeLockNode { t with count := t.count + 2 } mem').map (mem', ·)
    else (routeLockNode { t with count := t.count + 1 } mem).map (mem, ·)

/-- The pointer to a node that is taken out is replaced. -/
def unlink (a : Nat) (parent child : Option Nat) : Option (RouteTable afi ι) :=
  match parent with
  | some q => t.modifyNode q fun n =>
    { n with link := update n.link (if n.link false = some a then false else true) child }
  | none => some { t with top := child }

/-- The child of a node that is taken out gets another parent. -/
def setParent (child parent : Option Nat) : Option (RouteTable afi ι) :=
  match child with
  | some c => t.modifyNode c fun n => { n with parent }
  | none => some t

/-- The count goes down, and `route_node_free`. -/
def freeNode (a : Nat) : RouteTable afi ι := { t with count := t.count - 1, node := update t.node a none }

end

/-- `route_node_delete`, which goes on with the parent. Parents have shorter prefixes. -/
def routeNodeDelete (t : RouteTable afi ι) : Nat → Nat → Option (RouteTable afi ι)
  | 0, _ => none
  | turns + 1, a => do
    let n ← t.node a
    if n.lock ≠ 0 ∨ n.info.isSome then none
    else if (n.link false).isSome ∧ (n.link true).isSome then some t
    else
      let child := if (n.link false).isSome then n.link false else n.link true
      let t ← setParent t child n.parent
      let t ← unlink t a n.parent child
      let t := freeNode t a
      match n.parent with
      | none => some t
      | some q => do
        let m ← t.node q
        if m.lock = 0 then routeNodeDelete t turns q else some t

def routeUnlockNode (t : RouteTable afi ι) (a : Nat) : Option (RouteTable afi ι) := do
  let n ← t.node a
  if n.lock = 0 then none
  else
    let t := t.putNode a { n with lock := n.lock - 1 }
    if n.lock - 1 = 0 then routeNodeDelete t (n.p.prefixlen.toNat + 1) a else some t

end Functions

/-! ## The tree and the contents of a table -/

namespace RouteTable

variable {afi : Afi} {ι : Type} {t t' : RouteTable afi ι} {a c : Nat} {b : Bool} {n m : RouteNode afi ι}
  {s : Option (Nat × Bool)} {p : Prefix afi}

/-- What the pointers and the prefixes say. -/
def tree (t : RouteTable afi ι) : PrefixTree Nat where
  slot
    | none => t.top
    | some (a, b) => (t.node a).bind (·.link b)
  node a := (t.node a).map fun n => (n.p.bits, n.parent)

/-- What the rest of a node says. -/
structure Content (afi : Afi) (ι : Type) where
  p : Prefix afi
  lock : Nat
  info : Option ι

def content (t : RouteTable afi ι) (a : Nat) : Option (Content afi ι) := (t.node a).map fun n => ⟨n.p, n.lock, n.info⟩

theorem tree_node (h : t.node a = some n) : t.tree.node a = some (n.p.bits, n.parent) := by
  unfold tree
  dsimp only
  rw [h, map_some]

theorem tree_node_none (h : t.node a = none) : t.tree.node a = none := by
  unfold tree
  dsimp only
  rw [h, map_none]

theorem tree_slot (h : t.node a = some n) (b : Bool) : t.tree.slot (some (a, b)) = n.link b := by
  unfold tree
  dsimp only
  rw [h, bind_some]

theorem tree_slot_none (h : t.node a = none) (b : Bool) : t.tree.slot (some (a, b)) = none := by
  unfold tree
  dsimp only
  rw [h, bind_none]

theorem node_of_tree {k : List Bool} {q : Option Nat} (h : t.tree.node a = some (k, q)) :
    ∃ n, t.node a = some n ∧ n.p.bits = k ∧ n.parent = q := by
  obtain ⟨n, hn, heq⟩ := map_eq_some_iff.1 h
  rw [Prod.mk.injEq] at heq
  exact ⟨n, hn, heq⟩

theorem content_of_node (h : t.node a = some n) : t.content a = some ⟨n.p, n.lock, n.info⟩ := by
  rw [content, h, map_some]

theorem node_of_content {v : Content afi ι} (h : t.content a = some v) :
    ∃ n, t.node a = some n ∧ n.p = v.p ∧ n.lock = v.lock ∧ n.info = v.info := by
  obtain ⟨n, hn, rfl⟩ := map_eq_some_iff.1 h
  exact ⟨n, hn, rfl, rfl, rfl⟩

theorem putNode_node (x : Nat) : (t.putNode a n).node x = if x = a then some n else t.node x := update_apply ..

theorem freeNode_slot (s : Option (Nat × Bool)) :
    (freeNode t a).tree.slot s = if s.map fst = some a then none else t.tree.slot s := by
  rcases s with _ | ⟨x, b⟩
  · rfl
  rw [map_some]
  unfold freeNode tree
  dsimp only
  rw [update_apply]
  by_cases hx : x = a
  · rw [if_pos hx, if_pos (congrArg some hx)]
    rfl
  · rw [if_neg hx, if_neg fun h => hx (some.inj h)]

theorem freeNode_node : (freeNode t a).tree.node = update t.tree.node a none := comp_update (Option.map _) ..
theorem freeNode_content : (freeNode t a).content = update t.content a none := comp_update ..

theorem modifyNode_eq {f : RouteNode afi ι → RouteNode afi ι} (h : t.node a = some n) :
    t.modifyNode a f = some (t.putNode a (f n)) := by
  rw [modifyNode, h, map_some]

theorem bit_of_side {n p : Prefix afi} (h : n.bits ++ [b] <+: p.bits) : prefixBit p.octets n.prefixlen = b := by
  have hlt := length_lt_of_side h
  rw [bits_length, bits_length] at hlt
  exact side_unique (side_of_bit (prefix_of_side h) hlt) h

/-! ### One node is written -/

theorem putNode_content : (t.putNode a n).content = update t.content a (some ⟨n.p, n.lock, n.info⟩) := comp_update ..

theorem putNode_tree_node : (t.putNode a n).tree.node = update t.tree.node a (some (n.p.bits, n.parent)) :=
  comp_update (Option.map fun n : RouteNode afi ι => (n.p.bits, n.parent)) ..

theorem putNode_slot (x : Nat) (b : Bool) :
    (t.putNode a n).tree.slot (some (x, b)) = if x = a then n.link b else t.tree.slot (some (x, b)) := by
  unfold tree
  dsimp only
  rw [putNode_node]
  split <;> rfl

/-- A new node without links. -/
theorem putNew_slot (h : t.node a = none) (hlink : ∀ b, n.link b = none) : (t.putNode a n).tree.slot = t.tree.slot := by
  funext s
  rcases s with _ | ⟨x, b⟩
  · rfl
  rw [putNode_slot]
  split_ifs with hx
  · rw [hx, tree_slot_none h, hlink]
  · rfl

section Write
variable (ha : t.node a = some n)
include ha

theorem putNode_content_eq (hp : m.p = n.p) (hlock : m.lock = n.lock) (hinfo : m.info = n.info) :
    (t.putNode a m).content = t.content := by
  rw [putNode_content, hp, hlock, hinfo, ← content_of_node ha, update_eq_self]

theorem putNode_node_eq (hp : m.p = n.p) (hpar : m.parent = n.parent) : (t.putNode a m).tree.node = t.tree.node := by
  rw [putNode_tree_node, hp, hpar, ← tree_node ha, update_eq_self]

theorem putNode_slot_eq (hlink : m.link = n.link) : (t.putNode a m).tree.slot = t.tree.slot := by
  funext s
  rcases s with _ | ⟨x, b⟩
  · rfl
  rw [putNode_slot]
  split_ifs with hx
  · rw [hx, tree_slot ha, hlink]
  · rfl

theorem putNode_tree_eq (hp : m.p = n.p) (hpar : m.parent = n.parent) (hlink : m.link = n.link) :
    (t.putNode a m).tree = t.tree :=
  PrefixTree.ext (putNode_slot_eq ha hlink) (putNode_node_eq ha hp hpar)

/-- One link is set. -/
theorem putNode_link (b : Bool) (o : Option Nat) (s : Option (Nat × Bool)) :
    (t.putNode a { n with link := update n.link b o }).tree.slot s = if s = some (a, b) then o else t.tree.slot s := by
  rcases s with _ | ⟨x, b'⟩
  · rfl
  rw [putNode_slot]
  by_cases hx : x = a
  · subst hx
    rw [if_pos rfl, tree_slot ha]
    simp [update_apply]
  · rw [if_neg hx, if_neg]
    rintro ⟨⟩
    exact hx rfl

end Write

/-- `set_link` sets one side of the node and the parent of the new one. -/
theorem setLink_spec (hne : a ≠ c) (ha : t.node a = some n) (hc : t.node c = some m)
    (hside : n.p.bits ++ [b] <+: m.p.bits) :
    ∃ t', setLink t a c = some t' ∧ t'.count = t.count ∧ t'.content = t.content ∧
      (∀ s, t'.tree.slot s = if s = some (a, b) then some c else t.tree.slot s) ∧
      t'.tree.node = update t.tree.node c (some (m.p.bits, some a)) := by
  have hbit := bit_of_side hside
  have hc' : (t.putNode a { n with link := update n.link b (some c) }).node c = some m := by
    rw [putNode_node, if_neg hne.symm, hc]
  refine ⟨(t.putNode a { n with link := update n.link b (some c) }).putNode c { m with parent := some a },
    ?_, rfl, ?_, fun s => ?_, ?_⟩
  · unfold setLink
    rw [bind_of_some hc, bind_of_some (modifyNode_eq ha), hbit]
    exact modifyNode_eq hc'
  · exact (putNode_content_eq hc' (m := { m with parent := some a }) rfl rfl rfl).trans
      (putNode_content_eq ha rfl rfl rfl)
  · rw [putNode_slot_eq hc' (m := { m with parent := some a }) rfl, putNode_link ha]
  · rw [putNode_tree_node, putNode_node_eq ha (m := { n with link := update n.link b (some c) }) rfl rfl]

/-- What `match` says where a new node goes. -/
theorem linkNew_spec (hm : t.node c = some m) (hpar : m.parent = none) (hs : s.map fst ≠ some c)
    (hfits : t.tree.Fits s m.p.bits) :
    ∃ t', linkNew t (s.map fst) c = some t' ∧ t'.count = t.count ∧ t'.content = t.content ∧
      (∀ s', t'.tree.slot s' = if s' = s then some c else t.tree.slot s') ∧
      t'.tree.node = update t.tree.node c (some (m.p.bits, s.map fst)) := by
  cases s with
  | none =>
    refine ⟨{ t with top := some c }, rfl, rfl, rfl, ?_, ?_⟩
    · rintro (_ | v)
      · rfl
      · rfl
    · rw [map_none, ← hpar, ← tree_node hm, update_eq_self]
      rfl
  | some v =>
    obtain ⟨a, b⟩ := v
    obtain ⟨u, q, ha, hu⟩ := hfits a b rfl
    obtain ⟨n, hn, rfl, -⟩ := node_of_tree ha
    exact setLink_spec (fun h => hs (by rw [← h]; rfl)) hn hm hu

/-! ## The loops -/

theorem goesOn_iff : goesOn n p = true ↔ n.p.bits <+: p.bits := by
  unfold goesOn
  rw [Bool.and_eq_true, decide_eq_true_iff, prefixMatch_iff]
  exact ⟨fun h => h.2, fun h => ⟨(bits_prefix_iff.1 h).1, h⟩⟩

theorem bits_eq_of_prefixlen {n p : Prefix afi} (h : n.bits <+: p.bits) (hlen : n.prefixlen = p.prefixlen) :
    n.bits = p.bits := h.eq_of_length (by rw [bits_length, bits_length, hlen])

/-- There are turns enough to come from the node to the prefix. -/
def Turns (p : Prefix afi) (n : RouteNode afi ι) (turns : Nat) : Prop :=
  1 ≤ turns ∧ p.prefixlen.toNat + 1 ≤ turns + n.p.prefixlen.toNat

/-- The pointer is to a node, if to any, and there are turns enough from there. -/
def Walks (t : RouteTable afi ι) (p : Prefix afi) (turns : Nat) (o : Option Nat) : Prop :=
  ∀ a, o = some a → ∃ n, t.node a = some n ∧ Turns p n turns

theorem walks_top (h : t.tree.Linked) (p : Prefix afi) : t.Walks p (p.prefixlen.toNat + 1) t.top := by
  intro a ha
  obtain ⟨k, hk, -⟩ := h.held (s := none) ha
  obtain ⟨n, hn, -⟩ := node_of_tree hk
  exact ⟨n, hn, by omega, by omega⟩

variable {turns : Nat}

/-- One turn: the node lies above the prefix, and the walk goes on on the side of the prefix. -/
theorem turn_spec (h : t.tree.Linked) (ha : t.node a = some n) (hturns : Turns p n (turns + 1))
    (hpre : n.p.bits <+: p.bits) (hne : n.p.prefixlen ≠ p.prefixlen) :
    n.p.bits ++ [prefixBit p.octets n.p.prefixlen] <+: p.bits ∧
      t.Walks p turns (n.link (prefixBit p.octets n.p.prefixlen)) := by
  have hle := (bits_prefix_iff.1 hpre).1
  have hlt := UInt8.lt_of_le_of_ne hle hne
  have hside := side_of_bit hpre hlt
  refine ⟨hside, fun c hc => ?_⟩
  rw [← tree_slot ha] at hc
  obtain ⟨k, hk, hkside⟩ := h.side (tree_node ha) hc
  obtain ⟨m, hm, rfl, -⟩ := node_of_tree hk
  have hlen := length_lt_of_side hkside
  rw [bits_length, bits_length] at hlen
  rw [UInt8.lt_iff_toNat_lt] at hlt
  unfold Turns at hturns ⊢
  exact ⟨m, hm, by omega, by omega⟩

/-- A walk down to a prefix: it is over, comes to the prefix, goes on below a node that lies above it, or comes to a
node that does not. -/
@[elab_as_elim] theorem Walks.induct (h : t.tree.Linked) {P : Nat → Option Nat → Prop} (hnone : ∀ turns, P turns none)
    (hcome : ∀ {turns a n}, t.node a = some n → n.p.bits <+: p.bits → n.p.prefixlen = p.prefixlen →
      P (turns + 1) (some a))
    (hdown : ∀ {turns a n}, t.node a = some n → n.p.bits <+: p.bits → n.p.prefixlen ≠ p.prefixlen →
      n.p.bits ++ [prefixBit p.octets n.p.prefixlen] <+: p.bits → P turns (n.link (prefixBit p.octets n.p.prefixlen)) →
      P (turns + 1) (some a))
    (hapart : ∀ {turns a n}, t.node a = some n → ¬ n.p.bits <+: p.bits → P (turns + 1) (some a)) :
    ∀ {turns : Nat} {o : Option Nat}, t.Walks p turns o → P turns o := by
  intro turns
  induction turns with
  | zero =>
    intro o ho
    cases o with
    | none => exact hnone 0
    | some a =>
      obtain ⟨n, -, hturns, -⟩ := ho a rfl
      omega
  | succ turns ih =>
    intro o ho
    cases o with
    | none => exact hnone _
    | some a =>
      obtain ⟨n, ha, hturns⟩ := ho a rfl
      by_cases hpre : n.p.bits <+: p.bits
      · by_cases hlen : n.p.prefixlen = p.prefixlen
        · exact hcome ha hpre hlen
        · obtain ⟨hside, hwalks⟩ := turn_spec h ha hturns hpre hlen
          exact hdown ha hpre hlen hside (ih hwalks)
      · exact hapart ha hpre

theorem goesOn_false (h : ¬ n.p.bits <+: p.bits) : ¬ goesOn n p = true := fun hgoes => h (goesOn_iff.1 hgoes)

theorem node_unique (h : t.tree.Linked) (ha : t.node a = some n) (hc : t.node c = some m)
    (hbits : m.p.bits = n.p.bits) :
    c = a ∧ m = n := by
  obtain rfl := h.node_injective (tree_node ha) (by rw [tree_node hc, hbits])
  rw [ha] at hc
  exact ⟨rfl, (some.inj hc).symm⟩

theorem bits_of_reach (h : t.tree.Linked) (ha : t.node a = some n) (hc : t.tree.Reach (some a) c)
    (hm : t.node c = some m) :
    n.p.bits <+: m.p.bits := h.prefix_of_reach (tree_node ha) (tree_node hm) hc

variable {o : Option Nat}

/-- A node with the prefix is found where it is reached; nothing is found where there is none. -/
theorem lookupLoop_spec (h : t.tree.Linked) (hwalks : t.Walks p turns o) :
    ∃ r, lookupLoop t p turns o = some r ∧
      (∀ a n, t.tree.Reach o a → t.node a = some n → n.p.bits = p.bits → r = if n.info.isSome then some a else none) ∧
      ((∀ a n, t.tree.Reach o a → t.node a = some n → n.p.bits ≠ p.bits) → r = none) := by
  refine Walks.induct h ?_ ?_ ?_ ?_ hwalks
  · intro turns
    exact ⟨none, by rw [lookupLoop], fun a n hr => (by cases hr), fun _ => rfl⟩
  · intro turns a n ha hpre hlen
    have heq := bits_eq_of_prefixlen hpre hlen
    rw [lookupLoop, bind_of_some ha, if_pos (goesOn_iff.2 hpre), if_pos hlen]
    refine ⟨_, rfl, fun c m _ hc hm => ?_, fun hnone => absurd heq (hnone a n .here ha)⟩
    obtain ⟨rfl, rfl⟩ := node_unique h ha hc (hm.trans heq.symm)
    rfl
  · intro turns a n ha hpre hlen hside ih
    rw [lookupLoop, bind_of_some ha, if_pos (goesOn_iff.2 hpre), if_neg hlen]
    obtain ⟨r, hr, hfound, hnone⟩ := ih
    refine ⟨r, hr, fun c m hc hm heq => ?_, fun hno => hnone fun c m hc hm => ?_⟩
    · have hc' := h.reach_side (tree_node ha) (tree_node hm) (heq ▸ hside) hc
      rw [tree_slot ha] at hc'
      exact hfound c m hc' hm heq
    · exact hno c m (.down _ (by rw [tree_slot ha]; exact hc)) hm
  · intro turns a n ha hpre
    rw [lookupLoop, bind_of_some ha, if_neg (goesOn_false hpre)]
    refine ⟨none, rfl, fun c m hc hm heq => ?_, fun _ => rfl⟩
    exact absurd (heq ▸ bits_of_reach h ha hc hm) hpre

/-- The longest prefix that contains `p` and has something hung on it, of the nodes that are reached. -/
def Longest (t : RouteTable afi ι) (p : Prefix afi) (o : Option Nat) (a : Nat) : Prop :=
  ∃ n, t.node a = some n ∧ t.tree.Reach o a ∧ n.info.isSome ∧ n.p.bits <+: p.bits ∧
    ∀ c m, t.tree.Reach o c → t.node c = some m → m.info.isSome → m.p.bits <+: p.bits → m.p.bits <+: n.p.bits

/-- What lies above `p` is the node itself, or is met in the turns that follow. -/
theorem toward (h : t.tree.Linked) (ha : t.node a = some n) (hside : n.p.bits ++ [b] <+: p.bits)
    (hc : t.tree.Reach (some a) c) (hm : t.node c = some m) (hmpre : m.p.bits <+: p.bits) :
    c = a ∧ m = n ∨ t.tree.Reach (n.link b) c := by
  rw [← tree_slot ha]
  rcases h.reach_toward (tree_node ha) (tree_node hm) hside hc hmpre with rfl | hc'
  · rw [ha] at hm
    exact .inl ⟨rfl, (some.inj hm).symm⟩
  · exact .inr hc'

theorem matchLoop_spec (h : t.tree.Linked) (hwalks : t.Walks p turns o) :
    ∀ matched, ∃ r, matchLoop t p turns o matched = some r ∧
      ((∃ a, r = some a ∧ t.Longest p o a) ∨
        r = matched ∧ ∀ c m, t.tree.Reach o c → t.node c = some m → m.info.isSome → ¬ m.p.bits <+: p.bits) := by
  refine Walks.induct h ?_ ?_ ?_ ?_ hwalks
  · intro turns matched
    exact ⟨matched, by rw [matchLoop], .inr ⟨rfl, fun c m hr => by cases hr⟩⟩
  · intro turns a n ha hpre hlen matched
    have heq := bits_eq_of_prefixlen hpre hlen
    rw [matchLoop, bind_of_some ha, if_pos (goesOn_iff.2 hpre)]
    rw [if_pos hlen]
    refine ⟨_, rfl, ?_⟩
    split_ifs with hinfo
    · exact .inl ⟨a, rfl, n, ha, .here, hinfo, hpre, fun c m _ _ _ hm => heq ▸ hm⟩
    refine .inr ⟨rfl, fun c m hc hm hminfo hmpre => ?_⟩
    have hmn : m.p.bits = n.p.bits := by
      rw [← heq] at hmpre
      exact hmpre.eq_of_length (le_antisymm hmpre.length_le (bits_of_reach h ha hc hm).length_le)
    obtain ⟨rfl, rfl⟩ := node_unique h ha hm hmn
    exact hinfo hminfo
  · intro turns a n ha hpre hlen hside ih matched
    rw [matchLoop, bind_of_some ha, if_pos (goesOn_iff.2 hpre)]
    rw [if_neg hlen]
    obtain ⟨r, hr, hcase⟩ := ih (if n.info.isSome then some a else matched)
    refine ⟨r, hr, ?_⟩
    rcases hcase with ⟨c, rfl, n', hc, hrch, hinfo', hpre', hlong⟩ | ⟨rfl, hnone⟩
    · rw [← tree_slot ha] at hrch
      have hbelow : t.tree.Reach (some a) c := .down _ hrch
      refine .inl ⟨c, rfl, n', hc, hbelow, hinfo', hpre', fun d m hd hm hminfo hmpre => ?_⟩
      rcases toward h ha hside hd hm hmpre with ⟨rfl, rfl⟩ | hd'
      · exact bits_of_reach h ha hbelow hc
      · exact hlong d m hd' hm hminfo hmpre
    · split_ifs with hinfo
      · refine .inl ⟨a, rfl, n, ha, .here, hinfo, hpre, fun c m hc hm hminfo hmpre => ?_⟩
        rcases toward h ha hside hc hm hmpre with ⟨rfl, rfl⟩ | hc'
        · exact prefix_refl _
        · exact absurd hmpre (hnone c m hc' hm hminfo)
      · refine .inr ⟨rfl, fun c m hc hm hminfo hmpre => ?_⟩
        rcases toward h ha hside hc hm hmpre with ⟨rfl, rfl⟩ | hc'
        · exact hinfo hminfo
        · exact hnone c m hc' hm hminfo hmpre
  · intro turns a n ha hpre matched
    rw [matchLoop, bind_of_some ha, if_neg (goesOn_false hpre)]
    refine ⟨matched, rfl, .inr ⟨rfl, fun c m hc hm _ hmpre => ?_⟩⟩
    exact hpre ((bits_of_reach h ha hc hm).trans hmpre)

/-- The loop of `route_node_get` finds a node with the prefix, or the slot for it and what stands there, which does not
lie above the prefix. -/
theorem getLoop_spec (h : t.tree.Linked) (hwalks : t.Walks p turns o) : ∀ s, t.tree.slot s = o → t.tree.Fits s p.bits →
    (∃ a n, getLoop t p turns o (s.map fst) = some (.found a) ∧ t.node a = some n ∧ n.p.bits = p.bits) ∨
    ∃ s', getLoop t p turns o (s.map fst) = some (.place (s'.map fst) (t.tree.slot s')) ∧
      t.tree.Fits s' p.bits ∧ ∀ a n, t.tree.slot s' = some a → t.node a = some n → ¬ n.p.bits <+: p.bits := by
  refine Walks.induct h ?_ ?_ ?_ ?_ hwalks
  · intro turns s hs hfits
    exact .inr ⟨s, by rw [getLoop, hs], hfits, fun a n ha => by rw [hs] at ha; cases ha⟩
  · intro turns a n ha hpre hlen s hs hfits
    rw [getLoop, bind_of_some ha, if_pos (goesOn_iff.2 hpre), if_pos hlen]
    exact .inl ⟨a, n, rfl, ha, bits_eq_of_prefixlen hpre hlen⟩
  · intro turns a n ha hpre hlen hside ih s hs hfits
    rw [getLoop, bind_of_some ha, if_pos (goesOn_iff.2 hpre), if_neg hlen]
    refine ih (some (a, prefixBit p.octets n.p.prefixlen)) (tree_slot ha _) ?_
    rintro c b ⟨⟩
    exact ⟨n.p.bits, n.parent, tree_node ha, hside⟩
  · intro turns a n ha hpre s hs hfits
    rw [getLoop, bind_of_some ha, if_neg (goesOn_false hpre)]
    refine .inr ⟨s, by rw [hs], hfits, fun c m hc hm => ?_⟩
    rw [hs] at hc
    cases hc
    rw [ha] at hm
    cases hm
    exact hpre

end RouteTable

end Tarpan.Lib
