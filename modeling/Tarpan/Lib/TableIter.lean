/-
Iteration over a routing table (lib/table.c, lib/table.h). An iterator that is paused keeps the prefix it came to and no
lock, so that any nodes may come and go before it goes on with `route_table_get_next`. The order of iteration is the
lexicographic one of the bit strings, and the iterator always goes to the first node after all that it returned.
-/
import Tarpan.Base.TreeOrder
import Tarpan.Lib.TableRun

namespace Tarpan.Lib

open Base List Function Option Bool TableCall Prefix

section Functions
variable {afi : Afi} {ι : Type}

def routeTablePrefixIterCmp (p1 p2 : Prefix afi) : Option Int :=
  if p1.prefixlen ≤ p2.prefixlen ∧ prefixMatch p1 p2 = true then some (if p1.prefixlen = p2.prefixlen then 0 else -1)
  else if p2.prefixlen < p1.prefixlen ∧ prefixMatch p2 p1 = true then some 1
  else
    let common := routeCommon p1 p2
    if common.prefixlen < p1.prefixlen ∧ common.prefixlen < p2.prefixlen then
      if prefixBit p1.octets common.prefixlen then
        if prefixBit p2.octets common.prefixlen then none else some 1
      else if prefixBit p2.octets common.prefixlen then some (-1) else none
    else none

section
variable (t : RouteTable afi ι)

def routeTop : Option (Option Nat × RouteTable afi ι) := lockResult t t.top

/-- `route_get_subtree_next`, and the loop of `route_next`. Parents have shorter prefixes. -/
def routeGetSubtreeNext (t : RouteTable afi ι) : Nat → Nat → Option (Option Nat)
  | 0, _ => none
  | turns + 1, a => do
    let n ← t.node a
    match n.parent with
    | none => some none
    | some q => do
      let m ← t.node q
      if m.link false = some a ∧ (m.link true).isSome then some (m.link true) else routeGetSubtreeNext t turns q

/-- The node that `route_next` returns. -/
def following (a : Nat) : Option (Option Nat) := do
  let n ← t.node a
  if (n.link false).isSome then some (n.link false)
  else if (n.link true).isSome then some (n.link true)
  else routeGetSubtreeNext t (n.p.prefixlen.toNat + 1) a

/-- The lock of `a` is given back for one of the node that comes next. -/
def passLock (a : Nat) (next : Option Nat) : Option (Option Nat × RouteTable afi ι) := do
  let (next, t) ← lockResult t next
  (routeUnlockNode t a).map (next, ·)

def routeNext (a : Nat) : Option (Option Nat × RouteTable afi ι) := do passLock t a (← following t a)

/-- The loop of `route_next_until`. -/
def untilLoop (t : RouteTable afi ι) (limit : Option Nat) : Nat → Nat → Option (Option Nat)
  | 0, _ => none
  | turns + 1, a => do
    let n ← t.node a
    match n.parent with
    | none => some none
    | some q =>
      if limit = some a then some none
      else do
        let m ← t.node q
        if m.link false = some a ∧ (m.link true).isSome then some (m.link true) else untilLoop t limit turns q

/-- The node that `route_next_until` returns. -/
def followingUntil (limit : Option Nat) (a : Nat) : Option (Option Nat) := do
  let n ← t.node a
  if (n.link false).isSome then some (n.link false)
  else if (n.link true).isSome then some (n.link true)
  else untilLoop t limit (n.p.prefixlen.toNat + 1) a

def routeNextUntil (limit : Option Nat) (a : Nat) : Option (Option Nat × RouteTable afi ι) := do
  passLock t a (← followingUntil t limit a)

def unlockResult : Option Nat → Option (Option Nat × RouteTable afi ι)
  | none => some (none, t)
  | some a => (routeUnlockNode t a).map (some a, ·)

/-- The loop of `route_table_get_next_internal`. -/
def getNextLoop (t : RouteTable afi ι) (p : Prefix afi) : Nat → Option Nat → Option (Option Nat × RouteTable afi ι)
  | _, none => some (none, t)
  | 0, some _ => none
  | turns + 1, some a => do
    let n ← t.node a
    if (if n.p.prefixlen < p.prefixlen then prefixMatch n.p p else prefixMatch p n.p) then
      if n.p.prefixlen = p.prefixlen then
        let (next, t) ← routeNext (← routeLockNode t a) a
        unlockResult t next
      else if n.p.prefixlen > p.prefixlen then some (some a, t)
      else
        match n.link (prefixBit p.octets n.p.prefixlen) with
        | some c => getNextLoop t p turns (some c)
        | none =>
          if (n.link true).isSome then some (n.link true, t)
          else (routeGetSubtreeNext t (n.p.prefixlen.toNat + 1) a).map (·, t)
    else do
      let cmp ← routeTablePrefixIterCmp n.p p
      if cmp > 0 then some (some a, t)
      else if cmp < 0 then (routeGetSubtreeNext t (n.p.prefixlen.toNat + 1) a).map (·, t)
      else none

def routeTableGetNext (p : Prefix afi) : Option (Option Nat × RouteTable afi ι) := do
  match ← getNextLoop t p (p.prefixlen.toNat + 1) t.top with
  | (none, t) => some (none, t)
  | (some a, t) => do
    let n ← t.node a
    let cmp ← routeTablePrefixIterCmp n.p p
    if cmp > 0 then lockResult t (some a) else none

end

/-- `route_table_iter_t`: its state, with `current` and `pause_prefix` where they are in use. -/
inductive RouteTableIter (afi : Afi) where
  | init
  | iterating (current : Nat)
  | paused (pausePrefix : Prefix afi)
  | done

namespace RouteTableIter

/-- `route_table_iter_is_done`. -/
def isDone : RouteTableIter afi → Bool
  | .done => true
  | _ => false

/-- The iterator after a node, or none, was found. -/
def come (r : Option Nat × RouteTable afi ι) : Option Nat × RouteTableIter afi × RouteTable afi ι :=
  match r with
  | (some a, t) => (some a, .iterating a, t)
  | (none, t) => (none, .done, t)

/-- `route_table_iter_next`. -/
def next (t : RouteTable afi ι) : RouteTableIter afi → Option (Option Nat × RouteTableIter afi × RouteTable afi ι)
  | .init => (routeTop t).map come
  | .iterating a => (routeNext t a).map come
  | .paused p => (routeTableGetNext t p).map come
  | .done => some (none, .done, t)

/-- `route_table_iter_pause`. -/
def pause (t : RouteTable afi ι) : RouteTableIter afi → Option (RouteTableIter afi × RouteTable afi ι)
  | .iterating a => do
    let n ← t.node a
    (routeUnlockNode t a).map (.paused n.p, ·)
  | iter => some (iter, t)

/-- `route_table_iter_cleanup`. -/
def cleanup (t : RouteTable afi ι) : RouteTableIter afi → Option (RouteTableIter afi × RouteTable afi ι)
  | .iterating a => (routeUnlockNode t a).map (.done, ·)
  | _ => some (.done, t)

/-- The lock that the iterator holds. -/
def holds : RouteTableIter afi → Nat → Nat
  | .iterating a => fun x => if x = a then 1 else 0
  | _ => fun _ => 0

end RouteTableIter

/-- A table with an iterator, the prefixes of the nodes that it returned, and whether it came to the end. The locks of
`state` are those of the users and of the iterator. -/
structure IterState (afi : Afi) (ι : Type) where
  state : TableState afi ι
  iter : RouteTableIter afi := .init
  returned : List (Prefix afi) := []
  ended : Bool := false

/-- What is done with an iterator, and what users do to the table in between. -/
inductive IterCall (afi : Afi) (ι : Type) where
  | user (call : TableCall afi ι)
  | next
  | pause
  | cleanup

namespace IterState

/-- The table as users may treat it: the iterator's lock is not theirs. -/
def users (s : IterState afi ι) : TableState afi ι := { s.state with held := fun x => s.state.held x - s.iter.holds x }

/-- The table and the iterator after a call to the iterator. -/
def moved (s : IterState afi ι) (iter : RouteTableIter afi) (table : RouteTable afi ι) : IterState afi ι :=
  { s with state := { s.state with table, held := fun x => s.users.held x + iter.holds x }, iter }

end IterState

namespace IterCall

def exec (s : IterState afi ι) : IterCall afi ι → Option (IterState afi ι)
  | .user call => (call.exec s.state).map fun state => { s with state }
  | .next => (s.iter.next s.state.table).map fun (r, iter, table) =>
    { s.moved iter table with
      returned := s.returned ++ ((r.bind table.node).map RouteNode.p).toList
      ended := s.ended || (r.isNone && !s.iter.isDone) }
  | .pause => (s.iter.pause s.state.table).map fun (iter, table) => s.moved iter table
  | .cleanup => (s.iter.cleanup s.state.table).map fun (iter, table) => s.moved iter table

/-- Users give back their own locks only. -/
def Valid (s : IterState afi ι) : IterCall afi ι → Prop
  | .user call => call.Valid s.users
  | _ => True

end IterCall

/-- The states of an iteration over any table, the last one first. -/
inductive IterRun : List (IterState afi ι) → Prop
  | start {st : TableState afi ι} (hrun : TableRun st) : IterRun [{ state := st }]
  | step {s s' : IterState afi ι} {past : List (IterState afi ι)} (call : IterCall afi ι) (hrun : IterRun (s :: past))
      (hvalid : call.Valid s) (hexec : call.exec s = some s') : IterRun (s' :: s :: past)

end Functions

/-! ## The order of iteration -/

section Order
variable {afi : Afi} {p q : Prefix afi}

open RouteTable

/-- The assertions hold, and the comparison is that of the bit strings. -/
theorem routeTablePrefixIterCmp_eq (p q : Prefix afi) :
    routeTablePrefixIterCmp p q = some (if p.bits < q.bits then -1 else if p.bits = q.bits then 0 else 1) := by
  unfold routeTablePrefixIterCmp
  by_cases hpq : p.bits <+: q.bits
  · rw [if_pos ⟨(bits_prefix_iff.1 hpq).1, prefixMatch_iff.2 hpq⟩]
    by_cases hlen : p.prefixlen = q.prefixlen
    · have heq := bits_eq_of_prefixlen hpq hlen
      rw [if_pos hlen, heq, if_neg (lt_irrefl _), if_pos rfl]
    · rw [if_neg hlen, if_pos (lt_of_isPrefix hpq fun heq => hlen (prefixlen_eq_of_bits heq))]
  rw [if_neg fun h => hpq (prefixMatch_iff.1 h.2)]
  by_cases hqp : q.bits <+: p.bits
  · have hne : q.bits ≠ p.bits := fun heq => hpq (heq ▸ prefix_refl _)
    have hlt : q.prefixlen < p.prefixlen :=
      UInt8.lt_of_le_of_ne (bits_prefix_iff.1 hqp).1 fun hlen => hne (bits_eq_of_prefixlen hqp hlen)
    rw [if_pos ⟨hlt, prefixMatch_iff.2 hqp⟩, if_neg (not_lt_of_gt (lt_of_isPrefix hqp hne)), if_neg hne.symm]
  rw [if_neg fun h => hqp (prefixMatch_iff.1 h.2)]
  obtain ⟨b, hp, hcom⟩ := routeCommon_spec hpq
  have hq := hcom.resolve_left fun heq => hqp (heq ▸ prefix_of_side hp)
  have hshort : ∀ {r : Prefix afi} {c : Bool}, (routeCommon p q).bits ++ [c] <+: r.bits →
      (routeCommon p q).prefixlen < r.prefixlen := by
    intro r c hr
    have := length_lt_of_side hr
    rwa [bits_length, bits_length] at this
  rw [if_pos ⟨hshort hp, hshort hq⟩, bit_of_side hp, bit_of_side hq]
  cases b with
  | false =>
    rw [if_pos (lt_of_sides hp hq)]
    rfl
  | true =>
    have hlt := lt_of_sides hq hp
    rw [if_neg (not_lt_of_gt hlt), if_neg (ne_of_gt hlt)]
    rfl

theorem iterCmp_neg_iff : routeTablePrefixIterCmp p q = some (-1) ↔ p.bits < q.bits := by
  rw [routeTablePrefixIterCmp_eq]
  split
  · rename_i h
    exact ⟨fun _ => h, fun _ => rfl⟩
  rename_i h
  refine ⟨fun heq => ?_, fun hlt => absurd hlt h⟩
  split at heq <;> cases heq

theorem iterCmp_pos_iff : routeTablePrefixIterCmp p q = some 1 ↔ q.bits < p.bits := by
  rw [routeTablePrefixIterCmp_eq]
  rcases lt_trichotomy p.bits q.bits with h | h | h
  · rw [if_pos h]
    exact ⟨fun heq => (by cases heq), fun hlt => absurd hlt (not_lt_of_gt h)⟩
  · rw [h, if_neg (lt_irrefl _), if_pos rfl]
    exact ⟨fun heq => (by cases heq), fun hlt => absurd hlt (lt_irrefl _)⟩
  · rw [if_neg (not_lt_of_gt h), if_neg (ne_of_gt h)]
    exact ⟨fun _ => h, fun _ => rfl⟩

end Order

/-! ## What comes next -/

theorem TableCall.hold_apply (held : Nat → Nat) (r : Option Nat) (x : Nat) :
    hold held r x = held x + if r = some x then 1 else 0 := by
  cases r with
  | none => rfl
  | some c =>
    show update held c (held c + 1) x = _
    rw [update_apply]
    by_cases hx : x = c
    · rw [if_pos hx, hx, if_pos rfl]
    · rw [if_neg hx, if_neg fun heq => hx (some.inj heq).symm, Nat.add_zero]

namespace RouteTable

variable {afi : Afi} {ι : Type} {t : RouteTable afi ι} {held : Nat → Nat} {a c : Nat} {n : RouteNode afi ι}
  {p : Prefix afi}

theorem prefix_of_link (h : t.tree.Linked) {b : Bool} {k : List Bool} {q : Option Nat} (ha : t.node a = some n)
    (hc : n.link b = some c) (hk : t.tree.node c = some (k, q)) : n.p.bits <+: k :=
  prefix_of_side ((h.fits ((tree_slot ha b).trans hc) hk).side (tree_node ha))

/-- What comes past a node, by its parent. -/
theorem past_cases (h : t.tree.Linked) (ha : t.node a = some n) :
    n.parent = none ∧ t.tree.First (Past n.p.bits) none ∨
    ∃ q m b, n.parent = some q ∧ t.node q = some m ∧ t.tree.slot (some (q, b)) = some a ∧ m.p.bits ++ [b] <+: n.p.bits ∧
      if m.link false = some a ∧ (m.link true).isSome then t.tree.First (Past n.p.bits) (m.link true)
      else ∀ d x q', t.tree.node d = some (x, q') → (Past n.p.bits x ↔ Past m.p.bits x) := by
  obtain ⟨s, hs⟩ := h.placed (tree_node ha)
  obtain ⟨hpar, hfits⟩ := node_of_slot h hs ha
  cases s with
  | none => exact .inl ⟨hpar, h.past_top (tree_node ha) hs⟩
  | some y =>
    obtain ⟨q, b⟩ := y
    obtain ⟨u, q', hq, hside⟩ := hfits q b rfl
    obtain ⟨m, hm, rfl, -⟩ := node_of_tree hq
    refine .inr ⟨q, m, b, hpar, hm, hs, hside, ?_⟩
    have hlink : ∀ {b'}, m.link b' = some a ↔ b' = b := by
      intro b'
      rw [← tree_slot hm]
      constructor
      · intro hb'
        have := h.slot_unique hb' hs
        rw [some.injEq, Prod.mk.injEq] at this
        exact this.2
      · rintro rfl
        exact hs
    split_ifs with hright
    · obtain ⟨c, hc⟩ := isSome_iff_exists.1 hright.2
      obtain rfl := hlink.1 hright.1
      rw [hc]
      exact h.past_left (tree_node ha) hs (by rw [tree_slot hm, hc])
    · refine fun d x q'' hd => h.past_up (tree_node ha) hs (tree_node hm) ?_ hd
      rintro rfl
      rw [tree_slot hm]
      exact not_isSome_iff_eq_none.1 fun hsome => hright ⟨hlink.2 rfl, hsome⟩

theorem untilLoop_none : untilLoop t none = routeGetSubtreeNext t := by
  funext turns
  induction turns with
  | zero => rfl
  | succ turns ih =>
    funext a
    rw [untilLoop, ih]
    rfl

variable {o r : Option Nat}

/-- The walk up comes to the first node of the subtree past all that lies below `a`. -/
theorem untilLoop_spec (h : t.tree.Linked) : ∀ {turns a : Nat} {n : RouteNode afi ι}, t.node a = some n →
    n.p.prefixlen.toNat < turns → t.tree.Below o n.p.bits →
    ∃ r, untilLoop t o turns a = some r ∧ t.tree.First (fun x => Past n.p.bits x ∧ t.tree.Below o x) r := by
  intro turns
  induction turns with
  | zero =>
    intro a n _ hturns
    exact absurd hturns (Nat.not_lt_zero _)
  | succ turns ih =>
    intro a n ha hturns hbelow
    rw [untilLoop, ha, bind_eq_bind, bind_some]
    rcases past_cases h ha with ⟨hpar, hfirst⟩ | ⟨q, m, b, hpar, hm, hs, hside, hcase⟩
    · rw [hpar]
      exact ⟨none, rfl, hfirst.and nofun⟩
    rw [hpar]
    dsimp only
    by_cases hlimit : o = some a
    · rw [if_pos hlimit]
      exact ⟨none, rfl, fun d x q _ hx => hx.1.2 (hx.2 a _ _ hlimit (tree_node ha))⟩
    have habove := h.below_parent (tree_node ha) hs (tree_node hm) hlimit hbelow
    rw [if_neg hlimit, hm, bind_some]
    split_ifs at hcase ⊢ with hright
    · exact ⟨_, rfl, hcase.and fun c k q hc hk => habove.trans (prefix_of_link h hm hc hk)⟩
    have hlen := length_lt_of_side hside
    rw [bits_length, bits_length] at hlen
    obtain ⟨r, hr, hfirst⟩ := ih hm (by omega) habove
    exact ⟨r, hr, hfirst.congr fun d x q hd => and_congr_left' (hcase d x q hd).symm⟩

section
variable (h : t.tree.Linked) (ha : t.node a = some n)
include h ha

theorem routeGetSubtreeNext_spec :
    ∃ r, routeGetSubtreeNext t (n.p.prefixlen.toNat + 1) a = some r ∧ t.tree.First (Past n.p.bits) r := by
  obtain ⟨r, hr, hfirst⟩ := untilLoop_spec (o := none) h ha (Nat.lt_succ_self _) nofun
  rw [untilLoop_none] at hr
  exact ⟨r, hr, hfirst.congr fun d x q _ => and_iff_left nofun⟩

/-- What comes after a node: a child, or what is past it. -/
theorem next_cases : if (n.link false).isSome then t.tree.First (n.p.bits < ·) (n.link false)
    else if (n.link true).isSome then t.tree.First (n.p.bits < ·) (n.link true)
    else ∀ d x q, t.tree.node d = some (x, q) → (n.p.bits < x ↔ Past n.p.bits x) := by
  by_cases hleft : (n.link false).isSome
  · obtain ⟨c, hc⟩ := isSome_iff_exists.1 hleft
    rw [hc]
    exact h.first_left (tree_node ha) (by rw [tree_slot ha, hc])
  rw [if_neg hleft]
  have hnone := (tree_slot ha _).trans (not_isSome_iff_eq_none.1 hleft)
  by_cases hright : (n.link true).isSome
  · obtain ⟨c, hc⟩ := isSome_iff_exists.1 hright
    rw [hc]
    refine h.first_right (tree_node ha) hnone (by rw [tree_slot ha, hc]) (prefix_refl _) fun b hb => ?_
    exact absurd rfl (ne_of_side hb)
  · rw [if_neg hright]
    have hnone' := (tree_slot ha _).trans (not_isSome_iff_eq_none.1 hright)
    refine fun d x q hd => ⟨fun hlt => ⟨hlt, fun hx => ?_⟩, And.left⟩
    obtain ⟨b, hb⟩ := exists_side hx (ne_of_lt hlt)
    cases b with
    | false => exact h.not_side hd (tree_node ha) hnone hb
    | true => exact h.not_side hd (tree_node ha) hnone' hb

theorem followingUntil_spec (hbelow : t.tree.Below o n.p.bits) :
    ∃ r, followingUntil t o a = some r ∧ t.tree.First (fun x => n.p.bits < x ∧ t.tree.Below o x) r := by
  have hnext := next_cases h ha
  have hchd : ∀ b c k q, n.link b = some c → t.tree.node c = some (k, q) → t.tree.Below o k :=
    fun b c k q hc hk => hbelow.trans (prefix_of_link h ha hc hk)
  unfold followingUntil
  rw [bind_of_some ha]
  by_cases hleft : (n.link false).isSome
  · rw [if_pos hleft] at hnext ⊢
    exact ⟨_, rfl, hnext.and (hchd false)⟩
  rw [if_neg hleft] at hnext ⊢
  by_cases hright : (n.link true).isSome
  · rw [if_pos hright] at hnext ⊢
    exact ⟨_, rfl, hnext.and (hchd true)⟩
  rw [if_neg hright] at hnext ⊢
  obtain ⟨r, hr, hfirst⟩ := untilLoop_spec h ha (Nat.lt_succ_self _) hbelow
  exact ⟨r, hr, hfirst.congr fun d x q hd => and_congr_left' (hnext d x q hd).symm⟩

end

theorem followingUntil_none : followingUntil t none a = following t a := by
  unfold followingUntil following
  rw [untilLoop_none]

theorem routeNextUntil_none : routeNextUntil t none a = routeNext t a := by
  unfold routeNextUntil
  rw [followingUntil_none]
  rfl

theorem following_spec (h : t.tree.Linked) (ha : t.node a = some n) :
    ∃ r, following t a = some r ∧ t.tree.First (n.p.bits < ·) r := by
  obtain ⟨r, hr, hfirst⟩ := followingUntil_spec (o := none) h ha nofun
  rw [followingUntil_none] at hr
  exact ⟨r, hr, hfirst.congr fun d x q _ => and_iff_left nofun⟩

theorem Ok.unlock_lock (h : t.Ok held) (ha : t.node a = some n) :
    routeUnlockNode (t.putNode a { n with lock := n.lock + 1 }) a = some t := by
  have hput : (t.putNode a { n with lock := n.lock + 1 }).putNode a { n with lock := n.lock } = t := by
    unfold putNode
    rw [update_idem, ← ha, update_eq_self]
  unfold Lib.routeUnlockNode
  rw [putNode_node, bind_of_some (if_pos rfl), if_neg (Nat.succ_ne_zero _)]
  rw [Nat.add_sub_cancel, hput]
  by_cases hzero : n.lock = 0
  · rw [if_pos hzero, routeNodeDelete, bind_of_some ha]
    have hlock := h.lock (content_of_node ha)
    dsimp only at hlock
    have hinfo : ¬ n.info.isSome := by
      intro hsome
      rw [if_pos hsome] at hlock
      omega
    have hfull : ∀ b, (n.link b).isSome := fun b => by
      rw [← tree_slot ha]
      exact h.full (content_of_node ha) hzero (some_ne_none _) b
    rw [if_neg (not_or.2 ⟨not_not.2 hzero, hinfo⟩), if_pos ⟨hfull false, hfull true⟩]
  · rw [if_neg hzero]

theorem putNode_comm {m : RouteNode afi ι} (hne : a ≠ c) :
    (t.putNode a n).putNode c m = (t.putNode c m).putNode a n := by
  unfold putNode
  rw [update_comm hne.symm]

theorem routeLockNode_eq (ha : t.node a = some n) :
    routeLockNode t a = some (t.putNode a { n with lock := n.lock + 1 }) :=
  modifyNode_eq ha

section
variable (h : t.Ok held) {P : List Bool → Prop}
include h

/-- The lock of a node is given back for one of the next: all others stay. -/
theorem Ok.passLock (ha : t.node a = some n) (hP : ∀ x, P x → n.p.bits < x)
    (hfirst : t.tree.First P r) : ∃ t', Lib.passLock (t.putNode a { n with lock := n.lock + 1 }) a r = some (r, t') ∧
      lockResult t r = some (r, t') ∧ unlockResult t' r = some (r, t) := by
  unfold Lib.passLock
  cases r with
  | none =>
    refine ⟨t, ?_, rfl, rfl⟩
    rw [lockResult, bind_eq_bind, bind_some]
    dsimp only
    rw [h.unlock_lock ha]
    rfl
  | some c =>
    obtain ⟨k, q, hc, hk, -⟩ := hfirst
    obtain ⟨m, hm, rfl, -⟩ := node_of_tree hc
    have hne : a ≠ c := by
      rintro rfl
      rw [ha] at hm
      cases hm
      exact absurd (hP _ hk) (lt_irrefl _)
    have hm' : (t.putNode a { n with lock := n.lock + 1 }).node c = some m := by rw [putNode_node, if_neg hne.symm, hm]
    have ha' : (t.putNode c { m with lock := m.lock + 1 }).node a = some n := by rw [putNode_node, if_neg hne, ha]
    obtain ⟨t', hlock, hok, -⟩ := h.routeLockNode (content_of_node hm)
    rw [routeLockNode_eq hm] at hlock
    cases hlock
    refine ⟨t.putNode c { m with lock := m.lock + 1 }, ?_, ?_, ?_⟩
    · rw [lockResult, routeLockNode_eq hm', bind_of_some (map_some ..)]
      dsimp only
      rw [putNode_comm hne, hok.unlock_lock ha']
      rfl
    · rw [lockResult, routeLockNode_eq hm]
      rfl
    · rw [unlockResult, h.unlock_lock hm]
      rfl

/-- `route_next_until` with the one lock of a node: it is given back, and the next node is locked instead. -/
theorem Ok.routeNextUntil (ha : t.node a = some n) (hbelow : t.tree.Below o n.p.bits) :
    ∃ r t', routeNextUntil (t.putNode a { n with lock := n.lock + 1 }) o a = some (r, t') ∧
      lockResult t r = some (r, t') ∧
      unlockResult t' r = some (r, t) ∧ t.tree.First (fun x => n.p.bits < x ∧ t.tree.Below o x) r := by
  have htree : (t.putNode a { n with lock := n.lock + 1 }).tree = t.tree := putNode_tree_eq ha rfl rfl rfl
  obtain ⟨r, hr, hfirst⟩ := followingUntil_spec (htree ▸ h.linked) (by rw [putNode_node, if_pos rfl] :
    (t.putNode a { n with lock := n.lock + 1 }).node a = some { n with lock := n.lock + 1 }) (htree ▸ hbelow)
  rw [htree] at hfirst
  obtain ⟨t', hpass, hlock, hunl⟩ := h.passLock ha (fun _ => And.left) hfirst
  refine ⟨r, t', ?_, hlock, hunl, hfirst⟩
  unfold Lib.routeNextUntil
  rw [hr]
  exact hpass

/-- At the node that has the prefix itself, the next node is looked up with a lock, and left without. -/
theorem Ok.next_at (ha : t.node a = some n) (heq : n.p.bits = p.bits) :
    ∃ r, ((Lib.routeLockNode t a).bind fun t => (Lib.routeNext t a).bind fun v => unlockResult v.2 v.1) = some (r, t) ∧
      t.tree.First (p.bits < ·) r := by
  obtain ⟨r, t', hrt, -, hunl, hfirst⟩ := h.routeNextUntil (o := none) ha nofun
  rw [routeNextUntil_none] at hrt
  rw [routeLockNode_eq ha, bind_some, hrt, bind_some]
  exact ⟨r, hunl, heq ▸ hfirst.congr fun _ _ _ _ => and_iff_left nofun⟩

/-- Below a node with no child on the side of the prefix, the right child comes next, or what is past the node. -/
theorem Ok.next_missing {bit : Bool} (ha : t.node a = some n) (hside : n.p.bits ++ [bit] <+: p.bits)
    (hc : n.link bit = none) :
    ∃ r, (if (n.link true).isSome then some (n.link true, t)
      else (routeGetSubtreeNext t (n.p.prefixlen.toNat + 1) a).map (·, t)) = some (r, t) ∧
        t.tree.First (p.bits < ·) r := by
  have habove : n.p.bits <+: p.bits := prefix_of_side hside
  have hslot : t.tree.slot (some (a, bit)) = none := by rw [tree_slot ha, hc]
  by_cases hright : (n.link true).isSome
  · obtain ⟨d, hd⟩ := isSome_iff_exists.1 hright
    have hbit : bit = false := by
      cases bit with
      | false => rfl
      | true =>
        rw [hd] at hc
        cases hc
    rw [hbit] at hslot hside
    rw [hd]
    refine ⟨some d, rfl, h.linked.first_right (tree_node ha) hslot (by rw [tree_slot ha, hd]) habove fun b hb => ?_⟩
    exact side_unique hb hside
  · rw [if_neg hright]
    have hslot' := (tree_slot ha _).trans (not_isSome_iff_eq_none.1 hright)
    obtain ⟨r, hr, hfirst⟩ := routeGetSubtreeNext_spec h.linked ha
    rw [hr]
    refine ⟨r, rfl, hfirst.of_past habove fun d x q hd hx hlt => ?_⟩
    obtain ⟨b, hb⟩ := exists_side hx (ne_of_lt ((le_of_isPrefix habove).trans_lt hlt))
    -- nothing lies on the side of the prefix, nor on the right; what lies on the left comes before it
    by_cases hbit : b = bit
    · exact h.linked.not_side hd (tree_node ha) hslot (hbit ▸ hb)
    cases b with
    | true => exact h.linked.not_side hd (tree_node ha) hslot' hb
    | false =>
      rw [eq_true_of_not_eq_false fun heq => hbit heq.symm] at hside
      exact absurd (lt_of_sides hb hside) (not_lt_of_gt hlt)

/-- At a node that is neither above nor below the prefix, the node comes next or what is past it. -/
theorem Ok.next_beside {s : Option (Nat × Bool)} (ha : t.node a = some n) (hs : t.tree.slot s = some a)
    (hfits : t.tree.Fits s p.bits) (hnp : ¬ n.p.bits <+: p.bits) :
    ∃ r, ((routeTablePrefixIterCmp n.p p).bind fun cmp => if cmp > 0 then some (some a, t)
      else if cmp < 0 then (routeGetSubtreeNext t (n.p.prefixlen.toNat + 1) a).map (·, t) else none) = some (r, t) ∧
      t.tree.First (p.bits < ·) r := by
  rw [routeTablePrefixIterCmp_eq]
  by_cases hlt : n.p.bits < p.bits
  · rw [if_pos hlt]
    obtain ⟨r, hr, hfirst⟩ := routeGetSubtreeNext_spec h.linked ha
    rw [hr]
    exact ⟨r, rfl, h.linked.first_past_here (tree_node ha) hs hfits ⟨hlt, hnp⟩ hfirst⟩
  · have hne : n.p.bits ≠ p.bits := fun heq => hnp (heq ▸ prefix_refl _)
    rw [if_neg hlt, if_neg hne]
    refine ⟨some a, rfl, h.linked.first_here (tree_node ha) hs hfits ?_⟩
    exact lt_of_le_of_ne (not_lt.1 hlt) hne.symm

omit h in
/-- One prefix is matched with the other, the shorter with the longer. -/
theorem prefixMatch_shorter_iff {q : Prefix afi} :
    (if q.prefixlen < p.prefixlen then prefixMatch q p else prefixMatch p q) = true ↔
      q.bits <+: p.bits ∨ p.bits <+: q.bits := by
  split_ifs with hlt
  · rw [prefixMatch_iff]
    refine ⟨.inl, fun hor => hor.resolve_right fun hpn => ?_⟩
    exact absurd hlt (UInt8.not_lt.2 (bits_prefix_iff.1 hpn).1)
  · rw [prefixMatch_iff]
    refine ⟨.inr, fun hor => hor.elim (fun hnp => ?_) id⟩
    have hle := (bits_prefix_iff.1 hnp).1
    rw [bits_eq_of_prefixlen hnp (UInt8.le_antisymm hle (UInt8.not_lt.1 hlt))]

/-- The walk down to the prefix, from a slot that leads to it, comes to the first node after the prefix. -/
theorem getNextLoop_spec : ∀ {turns : Nat} {s : Option (Nat × Bool)}, t.Walks p turns (t.tree.slot s) →
    t.tree.Fits s p.bits → (t.tree.slot s).isSome →
    ∃ r, getNextLoop t p turns (t.tree.slot s) = some (r, t) ∧ t.tree.First (p.bits < ·) r := by
  intro turns
  induction turns with
  | zero =>
    intro s hwalks _ hsome
    obtain ⟨a, ha⟩ := isSome_iff_exists.1 hsome
    obtain ⟨n, -, hturns, -⟩ := hwalks a ha
    omega
  | succ turns ih =>
    intro s hwalks hfits hsome
    obtain ⟨a, hs⟩ := isSome_iff_exists.1 hsome
    obtain ⟨n, ha, hturns⟩ := hwalks a hs
    rw [hs, getNextLoop, bind_of_some ha]
    by_cases hcmp : n.p.bits <+: p.bits ∨ p.bits <+: n.p.bits
    · rw [if_pos (prefixMatch_shorter_iff.2 hcmp)]
      by_cases hlen : n.p.prefixlen = p.prefixlen
      · rw [if_pos hlen]
        refine h.next_at ha ?_
        rcases hcmp with hnp | hpn
        · exact bits_eq_of_prefixlen hnp hlen
        · exact (bits_eq_of_prefixlen hpn hlen.symm).symm
      rw [if_neg hlen]
      by_cases hbelow : p.bits <+: n.p.bits
      · have hlt : p.prefixlen < n.p.prefixlen :=
          UInt8.lt_of_le_of_ne (bits_prefix_iff.1 hbelow).1 fun heq => hlen heq.symm
        rw [if_pos hlt]
        refine ⟨some a, rfl, h.linked.first_here (tree_node ha) hs hfits (lt_of_isPrefix hbelow fun heq => ?_)⟩
        exact hlen (prefixlen_eq_of_bits heq).symm
      · have habove := hcmp.resolve_right hbelow
        rw [if_neg (UInt8.not_lt.2 (bits_prefix_iff.1 habove).1)]
        obtain ⟨hside, hwalks'⟩ := turn_spec h.linked ha hturns habove hlen
        rw [← tree_slot ha] at hwalks'
        cases hc : n.link (prefixBit p.octets n.p.prefixlen) with
        | some c =>
          have hslot : t.tree.slot (some (a, prefixBit p.octets n.p.prefixlen)) = some c := by rw [tree_slot ha, hc]
          have := ih hwalks' (PrefixTree.fits_side (tree_node ha) hside) (by rw [hslot]; rfl)
          rwa [hslot] at this
        | none => exact h.next_missing ha hside hc
    · rw [if_neg fun hm => hcmp (prefixMatch_shorter_iff.1 hm)]
      exact h.next_beside ha hs hfits (not_or.1 hcmp).1

/-- `route_table_get_next` returns the first node after the prefix, locked. -/
theorem routeTableGetNext_spec (p : Prefix afi) :
    ∃ r, routeTableGetNext t p = lockResult t r ∧ t.tree.First (p.bits < ·) r := by
  unfold routeTableGetNext
  cases htop : t.top with
  | none =>
    refine ⟨none, rfl, fun d x q hd _ => ?_⟩
    have := h.linked.reach_top hd
    rw [show t.tree.slot none = none from htop] at this
    cases this
  | some a =>
    obtain ⟨r, hloop, hfirst⟩ := getNextLoop_spec (s := none) h (walks_top h.linked p) nofun
      (by rw [show t.tree.slot none = some a from htop]; rfl)
    rw [show t.tree.slot none = some a from htop] at hloop
    rw [bind_of_some hloop]
    refine ⟨r, ?_, hfirst⟩
    cases r with
    | none => rfl
    | some c =>
      obtain ⟨k, q, hc, hlt, -⟩ := hfirst
      obtain ⟨m, hm, rfl, -⟩ := node_of_tree hc
      dsimp only
      rw [bind_of_some hm, bind_of_some (iterCmp_pos_iff.2 hlt), if_pos (by decide)]

theorem lockFirst_spec (hfirst : t.tree.First P r) :
    ∃ t', lockResult t r = some (r, t') ∧ t'.Ok (hold held r) ∧ SameInfo t t' ∧ Stays t t' := by
  refine lockResult_spec h fun a hr => ?_
  rw [hr] at hfirst
  obtain ⟨k, q, ha, -⟩ := hfirst
  exact (node_of_tree ha).imp fun _ h => h.1

/-- `route_next` with a lock of the node: it is given back, and the node that comes next is locked. -/
theorem Ok.routeNext (ha : t.node a = some n) (hheld : 0 < held a) :
    ∃ r t', routeNext t a = some (r, t') ∧ t'.Ok (hold (update held a (held a - 1)) r) ∧ SameInfo t t' ∧
      t.tree.First (n.p.bits < ·) r ∧ ∀ c v, r = some c → t.content c = some v → ∃ v', t'.content c = some v' ∧
        v'.p = v.p := by
  obtain ⟨r, hr, hfirst⟩ := following_spec h.linked ha
  have hne : ∀ c, r = some c → a ≠ c := by
    rintro c rfl rfl
    obtain ⟨k, q, hc, hlt, -⟩ := hfirst
    obtain ⟨m, hm, rfl, -⟩ := node_of_tree hc
    rw [ha] at hm
    cases hm
    exact absurd hlt (lt_irrefl _)
  have hself : hold held r a = held a := by
    rw [hold_apply, if_neg fun hra => hne a hra rfl, Nat.add_zero]
  obtain ⟨t1, hlock, hok, hsame, hstays⟩ := lockFirst_spec h hfirst
  obtain ⟨t', hunl, hok', hsame', -, hkeep⟩ := unlock_spec hok (hself.symm ▸ hheld)
  refine ⟨r, t', ?_, ?_, hsame.trans hsame', hfirst, ?_⟩
  · unfold Lib.routeNext Lib.passLock
    rw [bind_of_some hr, bind_of_some hlock]
    dsimp only
    rw [hunl]
    rfl
  · rw [hself] at hok'
    cases r with
    | none => exact hok'
    | some c =>
      rw [hold, update_of_ne (hne c rfl).symm, update_comm (hne c rfl)]
      exact hok'
  · rintro c w rfl hw
    obtain ⟨w', hw', hp⟩ := hstays c w hw
    have := hok.lock hw'
    rw [hold_apply, if_pos rfl] at this
    exact ⟨w', hkeep c w' hw' (by omega) (hne c rfl).symm, hp⟩

end

end RouteTable

/-! ## Whole iterations -/

section Run
variable {afi : Afi} {ι : Type} {s s' : IterState afi ι} {past : List (IterState afi ι)} {a : Nat}

open RouteTable

/-- A node of the table has the prefix. -/
def TableState.Has (st : TableState afi ι) (p : Prefix afi) : Prop := ∃ a n, st.table.node a = some n ∧ n.p = p

/-- The strings that come after all that was returned. -/
def IterState.Ahead (s : IterState afi ι) (x : List Bool) : Prop := ∀ q ∈ s.returned, q.bits < x

/-- The table is in order, and the iterator stands at the last node that it returned. -/
structure IterState.Ok (s : IterState afi ι) : Prop where
  state : s.state.Ok
  init : s.iter = .init → s.returned = []
  iterating : ∀ a, s.iter = .iterating a → 0 < s.state.held a ∧
    ∃ v, s.state.table.content a = some v ∧ s.returned.getLast? = some v.p
  paused : ∀ p, s.iter = .paused p → s.returned.getLast? = some p
  increasing : s.returned.Pairwise fun p q => p.bits < q.bits
  ended : s.ended = true → s.iter = .done

/-- A prefix whose node was there all the time was returned, or is still ahead. -/
def Met (s : IterState afi ι) (past : List (IterState afi ι)) : Prop :=
  ∀ p, (∀ s' ∈ s :: past, s'.state.Has p) → p ∈ s.returned ∨ s.ended = false ∧ s.Ahead p.bits

variable {call : TableCall afi ι}

/-- A user who gives back only locks of their own leaves the others' locks. -/
theorem TableCall.le_held {st st' : TableState afi ι} {k : Nat → Nat}
    (hvalid : call.Valid { st with held := fun x => st.held x - k x }) (hexec : call.exec st = some st') {x : Nat}
    (hle : k x ≤ st.held x) : k x ≤ st'.held x := by
  have hhold : ∀ r, k x ≤ hold st.held r x := by
    intro r
    rw [hold_apply]
    omega
  cases call with
  | get p mem mem' =>
    obtain ⟨⟨a, t'⟩, -, rfl⟩ := map_eq_some_iff.1 hexec
    exact hhold (some a)
  | lookup p | longest p =>
    obtain ⟨r, -, rfl⟩ := map_eq_some_iff.1 hexec
    exact hhold _
  | lock a =>
    obtain ⟨r, -, rfl⟩ := map_eq_some_iff.1 hexec
    exact hhold (some a)
  | unlock a =>
    obtain ⟨r, -, rfl⟩ := map_eq_some_iff.1 hexec
    have hvalid : 0 < st.held a - k a := hvalid
    dsimp only
    rw [update_apply]
    split_ifs with hx
    · rw [hx]
      omega
    · exact hle
  | setInfo a _ | clearInfo a =>
    obtain ⟨n, -, hexec⟩ := bind_eq_some_iff.1 hexec
    obtain ⟨t', -, hexec⟩ := bind_eq_some_iff.1 hexec
    cases hexec
    exact hle

namespace IterState

/-- What comes after the last one comes after all. -/
theorem Ok.ahead_iff (h : s.Ok) {p : Prefix afi} (hlast : s.returned.getLast? = some p) (x : List Bool) :
    s.Ahead x ↔ p.bits < x := by
  obtain ⟨l, hl⟩ := getLast?_eq_some_iff.1 hlast
  have hpair := h.increasing
  unfold Ahead
  rw [hl] at hpair ⊢
  constructor
  · intro hx
    exact hx p (mem_append_right l (mem_singleton.2 rfl))
  · intro hx q hq
    rcases mem_append.1 hq with hql | hqp
    · exact ((pairwise_append.1 hpair).2.2 q hql p (mem_singleton.2 rfl)).trans hx
    · rwa [mem_singleton.1 hqp]

theorem holds_iterating (a : Nat) :
    (RouteTableIter.iterating a : RouteTableIter afi).holds = fun x => if x = a then 1 else 0 := rfl

theorem users_iterating (hiter : s.iter = .iterating a) :
    s.users.held = update s.state.held a (s.state.held a - 1) := by
  funext x
  rw [users, hiter, holds_iterating, update_apply]
  dsimp only
  split_ifs with hx
  · rw [hx]
  · rfl

section
variable (h : s.Ok)
include h

theorem Ok.held (x : Nat) : s.users.held x + s.iter.holds x = s.state.held x := by
  unfold users
  cases hiter : s.iter with
  | iterating a =>
    obtain ⟨hheld, -⟩ := h.iterating a hiter
    rw [holds_iterating]
    dsimp only
    split_ifs with hx
    · rw [hx]
      omega
    · rfl
  | _ => rfl

theorem Ok.next (hdone : s.iter.isDone = false) :
    ∃ r t', s.iter.next s.state.table = some (RouteTableIter.come (r, t')) ∧
      t'.Ok (hold s.users.held r) ∧ SameInfo s.state.table t' ∧ s.state.table.tree.First s.Ahead r ∧
      ∀ c v, r = some c → s.state.table.content c = some v → ∃ v', t'.content c = some v' ∧ v'.p = v.p := by
  have hlocked : ∀ {r}, s.state.table.tree.First s.Ahead r → s.users.held = s.state.held →
      ∃ t', lockResult s.state.table r = some (r, t') ∧ t'.Ok (hold s.users.held r) ∧
        SameInfo s.state.table t' ∧ s.state.table.tree.First s.Ahead r ∧
        ∀ c v, r = some c → s.state.table.content c = some v → ∃ v', t'.content c = some v' ∧ v'.p = v.p := by
    intro r hfirst hheld
    obtain ⟨t', hlock, hok, hsame, hstays⟩ := lockFirst_spec h.state.table hfirst
    exact ⟨t', hlock, hheld ▸ hok, hsame, hfirst, fun c v _ hv => hstays c v hv⟩
  cases hiter : s.iter with
  | init =>
    have hfirst : s.state.table.tree.First s.Ahead s.state.table.top :=
      h.state.table.linked.first_top.congr fun d x q _ => by
        unfold Ahead
        rw [h.init hiter]
        simp
    obtain ⟨t', hlock, hpost⟩ := hlocked hfirst (by rw [users, hiter]; rfl)
    exact ⟨_, t', by rw [RouteTableIter.next, routeTop, hlock]; rfl, hpost⟩
  | iterating a =>
    obtain ⟨hheld, v, hv, hlast⟩ := h.iterating a hiter
    obtain ⟨n, hn, hnp, -⟩ := node_of_content hv
    obtain ⟨r, t', hnext, hok, hsame, hfirst, hkeep⟩ := h.state.table.routeNext hn hheld
    refine ⟨r, t', by rw [RouteTableIter.next, hnext]; rfl, ?_, hsame, hfirst.congr fun d x q _ => ?_, hkeep⟩
    · rw [users_iterating hiter]
      exact hok
    · rw [h.ahead_iff hlast, hnp]
  | paused p =>
    obtain ⟨r, hnext, hfirst⟩ := routeTableGetNext_spec h.state.table p
    obtain ⟨t', hlock, hpost⟩ := hlocked (hfirst.congr fun d x q _ => (h.ahead_iff (h.paused p hiter) x).symm)
      (by rw [users, hiter]; rfl)
    exact ⟨r, t', by rw [RouteTableIter.next, hnext, hlock]; rfl, hpost⟩
  | done =>
    rw [hiter] at hdone
    cases hdone

theorem Ok.exec_next (hdone : s.iter.isDone = false) :
    ∃ r s', IterCall.exec s .next = some s' ∧ s'.Ok ∧ s'.ended = r.isNone ∧ s.state.table.tree.First s.Ahead r ∧
      s'.returned = s.returned ++ ((r.bind s.state.table.node).map RouteNode.p).toList := by
  obtain ⟨r, t', hnext, hok, hsame, hfirst, hkeep⟩ := h.next hdone
  have hmap := h.state.map_same hsame
  have hended : s.ended = false := by
    cases he : s.ended with
    | false => rfl
    | true =>
      rw [h.ended he] at hdone
      cases hdone
  unfold IterCall.exec
  rw [hnext]
  cases r with
  | none =>
    refine ⟨none, _, rfl, ?_, ?_, hfirst, rfl⟩
    · dsimp only [RouteTableIter.come]
      refine ⟨⟨hok, hmap⟩, nofun, nofun, nofun, ?_, fun _ => rfl⟩
      dsimp only [bind_none, map_none, toList_none]
      rw [append_nil]
      exact h.increasing
    · rw [hended, hdone]
      rfl
  | some c =>
    obtain ⟨k, q, hc, hahead, -⟩ := id hfirst
    obtain ⟨n, hn, rfl, -⟩ := node_of_tree hc
    obtain ⟨v', hv', hvp⟩ := hkeep c _ rfl (content_of_node hn)
    obtain ⟨n', hn', hn'p, -⟩ := node_of_content hv'
    have hret : ((some c : Option Nat).bind t'.node).map RouteNode.p = some n.p := by
      rw [bind_some, hn', map_some, hn'p, hvp]
    refine ⟨some c, _, rfl, ?_, ?_, hfirst, ?_⟩
    · dsimp only [RouteTableIter.come, moved]
      rw [hret]
      refine ⟨⟨?_, hmap⟩, nofun, ?_, nofun, ?_, ?_⟩
      · convert hok using 1
        funext x
        simp [holds_iterating, hold_apply, eq_comm]
      · rintro a ⟨⟩
        refine ⟨?_, v', hv', ?_⟩
        · rw [holds_iterating]
          dsimp only
          rw [if_pos rfl]
          exact Nat.succ_pos _
        · rw [hvp]
          exact getLast?_concat ..
      · refine pairwise_append.2 ⟨h.increasing, pairwise_singleton _ _, fun x hx y hy => ?_⟩
        rw [mem_singleton.1 hy]
        exact hahead x hx
      · intro he
        rw [hended] at he
        cases he
    · rw [hended]
      rfl
    · dsimp only [RouteTableIter.come]
      rw [hret, bind_some, hn]
      rfl

theorem Ok.leave (hiter : s.iter = .iterating a) :
    ∃ t', routeUnlockNode s.state.table a = some t' ∧ t'.Ok s.users.held ∧ SameInfo s.state.table t' := by
  obtain ⟨t', hunl, hok, hsame, -⟩ := unlock_spec h.state.table (h.iterating a hiter).1
  exact ⟨t', hunl, by rwa [users_iterating hiter], hsame⟩

theorem Ok.moved_self : s.moved s.iter s.state.table = s := by
  have heq := funext h.held
  unfold moved
  rw [heq]

theorem Ok.exec_pause :
    ∃ s', IterCall.exec s .pause = some s' ∧ s'.Ok ∧ s'.returned = s.returned ∧ s'.ended = s.ended := by
  unfold IterCall.exec
  cases hiter : s.iter with
  | iterating a =>
    obtain ⟨-, v, hv, hlast⟩ := h.iterating a hiter
    obtain ⟨n, hn, hnp, -⟩ := node_of_content hv
    obtain ⟨t', hunl, hok, hsame⟩ := h.leave hiter
    refine ⟨s.moved (.paused n.p) t', ?_, ?_, rfl, rfl⟩
    · rw [RouteTableIter.pause, hn, bind_eq_bind, hunl]
      rfl
    · refine ⟨⟨hok, h.state.map_same hsame⟩, nofun, nofun, ?_, h.increasing, ?_⟩
      · rintro p ⟨⟩
        rw [hnp]
        exact hlast
      · intro hended
        have := h.ended hended
        rw [hiter] at this
        cases this
  | _ => exact ⟨s, congrArg some (hiter ▸ h.moved_self), h, rfl, rfl⟩

theorem Ok.exec_cleanup :
    ∃ s', IterCall.exec s .cleanup = some s' ∧ s'.Ok ∧ s'.returned = s.returned ∧ s'.ended = s.ended := by
  obtain ⟨t', hclean, hok, hsame⟩ : ∃ t', s.iter.cleanup s.state.table = some (.done, t') ∧ t'.Ok s.users.held ∧
      SameInfo s.state.table t' := by
    cases hiter : s.iter with
    | iterating a =>
      obtain ⟨t', hunl, hok, hsame⟩ := h.leave hiter
      exact ⟨t', by rw [RouteTableIter.cleanup, hunl]; rfl, hok, hsame⟩
    | _ =>
      have hheld : s.users.held = s.state.held := by
        rw [users, hiter]
        rfl
      exact ⟨s.state.table, rfl, hheld ▸ h.state.table, fun _ _ => Iff.rfl⟩
  refine ⟨s.moved .done t', ?_, ?_, rfl, rfl⟩
  · rw [IterCall.exec, hclean]
    rfl
  · exact ⟨⟨hok, h.state.map_same hsame⟩, nofun, nofun, nofun, h.increasing, fun _ => rfl⟩

end

variable {call : TableCall afi ι}

theorem valid_of_users (hvalid : call.Valid s.users) : call.Valid s.state := by
  cases call with
  | unlock a => exact lt_of_lt_of_le hvalid (Nat.sub_le ..)
  | _ => exact hvalid

theorem Ok.exec_user (h : s.Ok) (hvalid : call.Valid s.users) :
    ∃ s', IterCall.exec s (.user call) = some s' ∧ s'.Ok ∧ s'.returned = s.returned ∧ s'.ended = s.ended := by
  obtain ⟨st', hexec, hok, hprefix⟩ := h.state.step (valid_of_users hvalid)
  refine ⟨{ s with state := st' }, by rw [IterCall.exec, hexec]; rfl, ?_, rfl, rfl⟩
  refine { h with state := hok, iterating := fun a ha => ?_ }
  obtain ⟨hheld, v, hv, hlast⟩ := h.iterating a ha
  have hholds : s.iter.holds a = 1 := by
    rw [show s.iter = .iterating a from ha]
    exact if_pos rfl
  have hheld' : 0 < st'.held a := by
    have := le_held hvalid hexec (x := a) (by omega)
    omega
  have hlive : st'.table.content a ≠ none := by
    intro hnone
    have := hok.table.gone hnone
    omega
  obtain ⟨v', hv'⟩ := ne_none_iff_exists'.1 hlive
  exact ⟨hheld', v', hv', by rw [hlast, hprefix a v v' hv hv']⟩

/-- Every valid call returns and keeps the iterator in order, and no node that stays is missed. -/
theorem Ok.step (h : s.Ok) {call : IterCall afi ι} (hvalid : call.Valid s) :
    ∃ s', call.exec s = some s' ∧ s'.Ok ∧ ∀ past, Met s past → Met s' (s :: past) := by
  have hsame : (∃ s', call.exec s = some s' ∧ s'.Ok ∧ s'.returned = s.returned ∧ s'.ended = s.ended) →
      ∃ s', call.exec s = some s' ∧ s'.Ok ∧ ∀ past, Met s past → Met s' (s :: past) := by
    rintro ⟨s', hexec, hok, hret, hended⟩
    refine ⟨s', hexec, hok, fun past hmet p hp => ?_⟩
    unfold Ahead
    rw [hret, hended]
    exact hmet p fun s'' hs'' => hp s'' (mem_cons_of_mem _ hs'')
  cases call with
  | user call => exact hsame (h.exec_user hvalid)
  | pause => exact hsame h.exec_pause
  | cleanup => exact hsame h.exec_cleanup
  | next =>
    by_cases hdone : s.iter.isDone
    · have hiter : s.iter = .done := by
        cases hiter : s.iter with
        | done => rfl
        | _ =>
          rw [hiter] at hdone
          cases hdone
      have hexec : IterCall.exec s .next = some s := by
        rw [IterCall.exec, hiter, RouteTableIter.next, map_some, ← hiter]
        dsimp only
        rw [h.moved_self, hdone]
        simp
      exact hsame ⟨s, hexec, h, rfl, rfl⟩
    · obtain ⟨r, s', hexec, hok, hended, hfirst, hret⟩ := h.exec_next (eq_false_of_not_eq_true hdone)
      refine ⟨s', hexec, hok, fun past hmet p hp => ?_⟩
      obtain ⟨d, m, hd, rfl⟩ := hp s (mem_cons_of_mem _ (mem_cons_self ..))
      rcases hmet m.p (fun s'' hs'' => hp s'' (mem_cons_of_mem _ hs'')) with hmem | ⟨-, hahead⟩
      · exact .inl (hret ▸ mem_append_left _ hmem)
      cases r with
      | none => exact absurd hahead (hfirst d _ _ (tree_node hd))
      | some c =>
        obtain ⟨k, q, hc, -, hleast⟩ := hfirst
        obtain ⟨n, hn, rfl, -⟩ := node_of_tree hc
        have hle := hleast d _ _ (tree_node hd) hahead
        unfold Ahead
        rw [hret, bind_some, hn]
        rcases hle.eq_or_lt with heq | hlt
        · left
          have := eq_of_bits (h.state.table.masked (content_of_node hn)) (h.state.table.masked (content_of_node hd)) heq
          exact mem_append_right _ (mem_singleton.2 this.symm)
        · refine .inr ⟨hended, fun q hq => ?_⟩
          rcases mem_append.1 hq with hq | hq
          · exact hahead q hq
          · rw [mem_singleton.1 hq]
            exact hlt

end IterState

theorem IterRun.ok {run : List (IterState afi ι)} (hrun : IterRun run) :
    ∀ s past, run = s :: past → s.Ok ∧ Met s past := by
  induction hrun with
  | start hrun =>
    rintro s past ⟨⟩
    exact ⟨⟨hrun.ok, fun _ => rfl, nofun, nofun, .nil, nofun⟩, fun p _ => .inr ⟨rfl, nofun⟩⟩
  | step call _ hvalid hexec ih =>
    rintro s past ⟨⟩
    obtain ⟨hok, hmet⟩ := ih _ _ rfl
    obtain ⟨s', hexec', hok', hmet'⟩ := hok.step hvalid
    rw [hexec] at hexec'
    cases hexec'
    exact ⟨hok', hmet' _ hmet⟩

/-- What an iteration is meant to be. -/
structure IterState.Right (s : IterState afi ι) (past : List (IterState afi ι)) : Prop where
  /-- No assertion fails. -/
  returns : ∀ call : IterCall afi ι, call.Valid s → (call.exec s).isSome
  increasing : s.returned.Pairwise fun p q => routeTablePrefixIterCmp p q = some (-1)
  /-- What is in the tree all the time is returned once. -/
  once : s.ended = true → ∀ p, (∀ s' ∈ s :: past, s'.state.Has p) → s.returned.count p = 1
  /-- The least node greater than the prefix, whether or not a node has the prefix. -/
  least : ∀ p : Prefix afi, ∃ r t, routeTableGetNext s.state.table p = some (r, t) ∧
    (r = none → ∀ c m, s.state.table.node c = some m → routeTablePrefixIterCmp m.p p ≠ some 1) ∧
    ∀ a, r = some a → ∃ n, s.state.table.node a = some n ∧ routeTablePrefixIterCmp n.p p = some 1 ∧
      ∀ c m, s.state.table.node c = some m → routeTablePrefixIterCmp m.p p = some 1 →
        routeTablePrefixIterCmp n.p m.p ≠ some 1

/-- Whatever is inserted and deleted while the iterator is paused, or between any two of its calls. -/
theorem iterRun_right (hrun : IterRun (s :: past)) : s.Right past := by
  obtain ⟨hok, hmet⟩ := hrun.ok s past rfl
  refine ⟨fun call hvalid => ?_, ?_, fun hended p hp => ?_, fun p => ?_⟩
  · obtain ⟨s', hexec, -⟩ := hok.step hvalid
    rw [hexec]
    rfl
  · exact hok.increasing.imp fun h => iterCmp_neg_iff.2 h
  · have hnd : s.returned.Nodup := hok.increasing.imp fun h heq => absurd h (by rw [heq]; exact lt_irrefl _)
    refine count_eq_one_of_mem hnd ((hmet p hp).resolve_right fun h => ?_)
    rw [hended] at h
    cases h.1
  · obtain ⟨r, hget, hfirst⟩ := routeTableGetNext_spec hok.state.table p
    obtain ⟨t', hlock, -⟩ := lockFirst_spec hok.state.table hfirst
    refine ⟨r, t', hget.trans hlock, ?_, ?_⟩
    · rintro rfl c m hm hcmp
      exact hfirst c _ _ (tree_node hm) (iterCmp_pos_iff.1 hcmp)
    · rintro a rfl
      obtain ⟨k, q, ha, hlt, hleast⟩ := hfirst
      obtain ⟨n, hn, rfl, -⟩ := node_of_tree ha
      refine ⟨n, hn, iterCmp_pos_iff.2 hlt, fun c m hm hcmp hgt => ?_⟩
      exact absurd (iterCmp_pos_iff.1 hgt) (not_lt_of_ge (hleast c _ _ (tree_node hm) (iterCmp_pos_iff.1 hcmp)))

/-- After the first node, which is 10.0.0.0/23, the iterator is paused; with 10.0.1.0/24 that node goes too. -/
def pausedCalls : List (IterCall .ip Nat) := [.next, .pause, .user (.unlock 3), .next, .next]

def pausedState (k : Nat) : IterState .ip Nat :=
  ((pausedCalls.take k).foldlM IterCall.exec { state := partedState 3 }).getD { state := {} }

theorem pausedState_run :
    IterRun [pausedState 5, pausedState 4, pausedState 3, pausedState 2, pausedState 1, pausedState 0] := by
  have h0 : IterRun [pausedState 0] := .start partedState_run
  have h1 : IterRun [pausedState 1, pausedState 0] := .step .next h0 trivial rfl
  have h2 : IterRun [pausedState 2, pausedState 1, pausedState 0] := .step .pause h1 trivial rfl
  have h3 : IterRun [pausedState 3, pausedState 2, pausedState 1, pausedState 0] :=
    .step (.user (.unlock 3)) h2 (show 0 < (pausedState 2).users.held 3 by decide) rfl
  exact .step .next (.step .next h3 trivial rfl) trivial rfl

theorem iterRun_right_paused : (pausedState 5).returned = [ip4 10 0 0 0 23 (by decide), ip4 10 0 0 0 24 (by decide)] ∧
      (pausedState 5).Right [pausedState 4, pausedState 3, pausedState 2, pausedState 1, pausedState 0] :=
  ⟨by decide, iterRun_right pausedState_run⟩

end Run

end Tarpan.Lib
