/-
Traversals of a routing table (lib/table.c). A loop with `route_next` or `route_next_until` holds one lock, that of the
node it has come to. It visits the nodes of the table, or of a subtree, in the order of iteration and leaves the table
as it was.
-/
import Tarpan.Lib.TableIter

namespace Tarpan.Lib

open Base List Option

variable {afi : Afi} {ι : Type} {t : RouteTable afi ι} {st : TableState afi ι} {held : Nat → Nat} {o : Option Nat}

/-- A loop over nodes: those that it comes to from `r.1`, and the table after it. -/
def visits (next : RouteTable afi ι → Nat → Option (Option Nat × RouteTable afi ι)) :
    Nat → Option Nat × RouteTable afi ι → Option (List Nat × RouteTable afi ι)
  | 0, _ => none
  | turns + 1, r =>
    match r.1 with
    | none => some ([], r.2)
    | some a => do
      let (l, t) ← visits next turns (← next r.2 a)
      some (a :: l, t)

namespace RouteTable

/-- A node whose string meets the condition. -/
def Within (t : RouteTable afi ι) (P : List Bool → Prop) (a : Nat) : Prop := ∃ n, t.node a = some n ∧ P n.p.bits

/-- The prefix of one node comes before that of the other. -/
def Before (t : RouteTable afi ι) (a c : Nat) : Prop :=
  ∃ n m, t.node a = some n ∧ t.node c = some m ∧ routeTablePrefixIterCmp n.p m.p = some (-1)

section First
variable {P : List Bool → Prop} {c : Nat} {m : RouteNode afi ι} (hm : t.node c = some m) (hc : P m.p.bits)
  (hleast : ∀ d x q, t.tree.node d = some (x, q) → P x → m.p.bits ≤ x) (hbelow : ∀ x, P x → t.tree.Below o x)
  (hup : ∀ x y, P x → x < y → t.tree.Below o y → P y)
include hm hc hleast hbelow hup

/-- Without its first node, a set of nodes of a subtree that is closed upwards is what comes after that node. -/
theorem within_first (h : t.tree.Linked) (a : Nat) :
    t.Within P a ↔ a = c ∨ t.Within (fun x => m.p.bits < x ∧ t.tree.Below o x) a := by
  constructor
  · rintro ⟨n, ha, hn⟩
    rcases (hleast a _ _ (tree_node ha) hn).eq_or_lt with heq | hlt
    · exact .inl (node_unique h hm ha heq.symm).1
    · exact .inr ⟨n, ha, hlt, hbelow _ hn⟩
  · rintro (rfl | ⟨n, ha, hlt, hn⟩)
    · exact ⟨m, hm, hc⟩
    · exact ⟨n, ha, hup _ _ hc hlt hn⟩

theorem ncard_after_first (h : t.Ok held) :
    { a | t.Within (fun x => m.p.bits < x ∧ t.tree.Below o x) a }.ncard < { a | t.Within P a }.ncard := by
  have hrest := within_first hm hc hleast hbelow hup h.linked
  refine Set.ncard_lt_ncard ⟨fun a ha => (hrest a).2 (.inr ha), fun hsub => ?_⟩ (h.finite.subset ?_)
  · obtain ⟨n, hn, hlt, -⟩ := hsub ((hrest c).2 (.inl rfl))
    rw [hm] at hn
    cases hn
    exact absurd hlt (lt_irrefl _)
  · rintro a ⟨n, ha, -⟩
    exact isSome_iff_exists.2 ⟨_, content_of_node ha⟩

end First

/-- The loop visits the nodes of the subtree that are left, in order. -/
theorem visits_spec (h : t.Ok held) : ∀ (turns : Nat) {P : List Bool → Prop} {r : Option Nat} {t' : RouteTable afi ι},
    (∀ x, P x → t.tree.Below o x) → (∀ x y, P x → x < y → t.tree.Below o y → P y) → t.tree.First P r →
    lockResult t r = some (r, t') → { a | t.Within P a }.ncard < turns →
    ∃ l, visits (routeNextUntil · o) turns (r, t') = some (l, t) ∧ l.Pairwise t.Before ∧ ∀ a, a ∈ l ↔ t.Within P a := by
  intro turns
  induction turns with
  | zero => exact fun _ _ _ _ hturns => absurd hturns (Nat.not_lt_zero _)
  | succ turns ih =>
    intro P r t' hbelow hup hfirst hlock hturns
    cases r with
    | none =>
      cases hlock
      refine ⟨[], rfl, .nil, fun a => iff_of_false not_mem_nil ?_⟩
      rintro ⟨n, ha, hn⟩
      exact hfirst a _ _ (tree_node ha) hn
    | some c =>
      obtain ⟨k, q, hc, hk, hleast⟩ := hfirst
      obtain ⟨m, hm, rfl, -⟩ := node_of_tree hc
      rw [lockResult, routeLockNode_eq hm] at hlock
      cases hlock
      obtain ⟨r, t', hstep, hlock, -, hfirst⟩ := h.routeNextUntil hm (hbelow _ hk)
      have hrest := within_first hm hk hleast hbelow hup h.linked
      have hfewer := ncard_after_first hm hk hleast hbelow hup h
      obtain ⟨l, hvis, hpair, hmem⟩ := ih (fun _ => And.right) (fun x y hx hxy hy => ⟨hx.1.trans hxy, hy⟩) hfirst hlock
        (by omega)
      refine ⟨c :: l, ?_, pairwise_cons.2 ⟨fun d hd => ?_, hpair⟩, fun a => ?_⟩
      · dsimp only [visits]
        rw [hstep, bind_eq_bind, bind_some, hvis]
        rfl
      · obtain ⟨n, hn, hlt, -⟩ := (hmem d).1 hd
        exact ⟨m, n, hm, hn, iterCmp_neg_iff.2 hlt⟩
      · rw [mem_cons, hmem, hrest]

theorem nodup_of_before {l : List Nat} (hl : l.Pairwise t.Before) : l.Nodup := by
  refine hl.imp ?_
  rintro a _ ⟨n, m, hn, hm, hcmp⟩ rfl
  rw [hn] at hm
  cases hm
  exact absurd (iterCmp_neg_iff.1 hcmp) (lt_irrefl _)

/-- A whole loop, from the first node of the subtree. -/
theorem visits_below (h : t.Ok held) {r : Option Nat} (hfirst : t.tree.First (t.tree.Below o) r) :
    ∃ t' turns l, lockResult t r = some (r, t') ∧ visits (routeNextUntil · o) turns (r, t') = some (l, t) ∧ l.Nodup ∧
      l.Pairwise t.Before ∧ ∀ a, a ∈ l ↔ t.Within (t.tree.Below o) a := by
  obtain ⟨t', hlock, -⟩ := lockFirst_spec h hfirst
  obtain ⟨l, hvis, hpair, hmem⟩ := visits_spec h _ (fun _ => id) (fun _ _ _ _ => id) hfirst hlock (Nat.lt_succ_self _)
  exact ⟨t', _, l, hlock, hvis, nodup_of_before hpair, hpair, hmem⟩

end RouteTable

open RouteTable

/-- What a traversal is meant to be: it ends, comes to each node once, in order, and leaves the locks as they were. -/
structure TableState.Traversed (st : TableState afi ι) : Prop where
  table : ∃ r turns l, routeTop st.table = some r ∧ visits routeNext turns r = some (l, st.table) ∧ l.Nodup ∧
    l.Pairwise st.table.Before ∧ ∀ a, a ∈ l ↔ (st.table.node a).isSome
  subtree : ∀ limit, (st.table.node limit).isSome → ∃ t turns l, routeLockNode st.table limit = some t ∧
    visits (routeNextUntil · (some limit)) turns (some limit, t) = some (l, st.table) ∧ l.Nodup ∧
    l.Pairwise st.table.Before ∧ ∀ a, a ∈ l ↔ st.table.tree.Reach (some limit) a

/-- The comparison always returns, and is a strict total order of the prefixes. -/
structure IterOrder (afi : Afi) : Prop where
  total : ∀ p q : Prefix afi, routeTablePrefixIterCmp p q = some (-1) ∨
    routeTablePrefixIterCmp p q = some 0 ∨ routeTablePrefixIterCmp p q = some 1
  equal : ∀ p q : Prefix afi, routeTablePrefixIterCmp p q = some 0 ↔ p.bits = q.bits
  swap : ∀ p q : Prefix afi, routeTablePrefixIterCmp p q = some 1 ↔ routeTablePrefixIterCmp q p = some (-1)
  trans : ∀ p q r : Prefix afi, routeTablePrefixIterCmp p q = some (-1) → routeTablePrefixIterCmp q r = some (-1) →
    routeTablePrefixIterCmp p r = some (-1)

theorem iterOrder (afi : Afi) : IterOrder afi where
  total p q := by
    rw [routeTablePrefixIterCmp_eq]
    split
    · exact .inl rfl
    split
    · exact .inr (.inl rfl)
    · exact .inr (.inr rfl)
  equal p q := by
    rw [routeTablePrefixIterCmp_eq]
    rcases lt_trichotomy p.bits q.bits with h | h | h
    · simp [h, ne_of_lt h]
    · simp [h]
    · simp [not_lt_of_gt h]
  swap p q := iterCmp_pos_iff.trans iterCmp_neg_iff.symm
  trans p q r hpq hqr := iterCmp_neg_iff.2 ((iterCmp_neg_iff.1 hpq).trans (iterCmp_neg_iff.1 hqr))

/-- Every table is traversed as it should be, and the order of prefixes is one. -/
theorem tableRun_traversed (hrun : TableRun st) : st.Traversed ∧ IterOrder afi := by
  have h := hrun.ok.table
  refine ⟨⟨?_, fun limit hlimit => ?_⟩, iterOrder afi⟩
  · obtain ⟨t, turns, l, hlock, hvis, hnd, hpair, hmem⟩ := visits_below (o := none) h
      (h.linked.first_top.congr fun _ _ _ _ => iff_of_true trivial nofun)
    have hnext : (routeNextUntil · none) = (routeNext : RouteTable afi ι → _) := by
      funext t a
      exact routeNextUntil_none
    rw [hnext] at hvis
    refine ⟨_, turns, l, hlock, hvis, hnd, hpair, fun a => (hmem a).trans ?_⟩
    rw [isSome_iff_exists]
    exact exists_congr fun n => and_iff_left nofun
  · obtain ⟨n, hn⟩ := isSome_iff_exists.1 hlimit
    have hself : st.table.tree.Below (some limit) n.p.bits := by
      rintro _ k q ⟨⟩ hk
      exact PrefixTree.key_eq (tree_node hn) hk ▸ prefix_refl _
    obtain ⟨t, turns, l, hlock, hvis, hnd, hpair, hmem⟩ := @visits_below _ _ _ _ (some limit) h (some limit)
      ⟨_, _, tree_node hn, hself, fun d x q _ hx => le_of_isPrefix (hx limit _ _ rfl (tree_node hn))⟩
    rw [lockResult, routeLockNode_eq hn] at hlock
    cases hlock
    refine ⟨_, turns, l, routeLockNode_eq hn, hvis, hnd, hpair, fun a => (hmem a).trans ⟨?_, fun hrch => ?_⟩⟩
    · rintro ⟨m, hm, hbelow⟩
      exact h.linked.reach_of_prefix (tree_node hn) (tree_node hm) (hbelow limit _ _ rfl (tree_node hn))
    · obtain ⟨m, hm⟩ : ∃ m, st.table.node a = some m := by
        rcases hrch.parent with htop | ⟨p, b, -, hs⟩
        · cases htop
          exact ⟨n, hn⟩
        · obtain ⟨k, hk, -⟩ := h.linked.held hs
          exact (node_of_tree hk).imp fun _ h => h.1
      exact ⟨m, hm, hself.trans (bits_of_reach h.linked hn hrch hm)⟩

theorem tableRun_traversed_parted :
    ((routeTop (partedState 3).table).bind (visits routeNext 4)).map (·.1) = some [2, 1, 3] ∧
    (partedState 3).Traversed :=
  ⟨by decide, (tableRun_traversed partedState_run).1⟩

end Tarpan.Lib
