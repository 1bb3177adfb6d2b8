/-
Runs of calls on a routing table. Beside the table stand the locks that users hold and the map that the calls describe:
what was last hung on each prefix and not taken down. After any calls the table is that map.
-/
import Tarpan.Lib.TableMap

namespace Tarpan.Lib

open Base Option Function

/-- A table, the locks of each node that users hold, and what hangs on each prefix. -/
structure TableState (afi : Afi) (ι : Type) where
  table : RouteTable afi ι := {}
  held : Nat → Nat := fun _ => 0
  map : Prefix afi → Option ι := fun _ => none

/-- The calls of a user. What is hung on a node takes a lock where nothing hung there, and with it goes one. -/
inductive TableCall (afi : Afi) (ι : Type) where
  | get (p : Prefix afi) (mem mem' : Nat)
  | lookup (p : Prefix afi)
  | longest (p : Prefix afi)
  | lock (a : Nat)
  | unlock (a : Nat)
  | setInfo (a : Nat) (i : ι)
  | clearInfo (a : Nat)

section Calls
variable {afi : Afi} {ι : Type}

/-- `node->info` is set. -/
def setInfo (t : RouteTable afi ι) (a : Nat) (i : ι) : Option (RouteTable afi ι) := do
  let n ← t.node a
  let t := t.putNode a { n with info := some i }
  if n.info.isSome then some t else routeLockNode t a

/-- `node->info` is cleared. -/
def clearInfo (t : RouteTable afi ι) (a : Nat) : Option (RouteTable afi ι) := do
  let n ← t.node a
  routeUnlockNode (t.putNode a { n with info := none }) a

namespace TableCall

/-- One more lock of the result, if there is one. -/
def hold (held : Nat → Nat) : Option Nat → Nat → Nat
  | none => held
  | some a => update held a (held a + 1)

def exec (st : TableState afi ι) : TableCall afi ι → Option (TableState afi ι)
  | .get p mem mem' => (routeNodeGet st.table p mem mem').map fun (a, table) =>
    { st with table, held := hold st.held (some a) }
  | .lookup p => (routeNodeLookup st.table p).map fun (r, table) => { st with table, held := hold st.held r }
  | .longest p => (routeNodeMatch st.table p).map fun (r, table) => { st with table, held := hold st.held r }
  | .lock a => (routeLockNode st.table a).map fun table => { st with table, held := hold st.held (some a) }
  | .unlock a => (routeUnlockNode st.table a).map fun table =>
    { st with table, held := update st.held a (st.held a - 1) }
  | .setInfo a i => do
    let n ← st.table.node a
    let table ← Lib.setInfo st.table a i
    some { st with table, map := update st.map n.p (some i) }
  | .clearInfo a => do
    let n ← st.table.node a
    let table ← Lib.clearInfo st.table a
    some { st with table, map := update st.map n.p none }

/-- Prefixes have no host bits, new memory is not in use, and only locks that are held are given back. -/
def Valid (st : TableState afi ι) : TableCall afi ι → Prop
  | .get p mem mem' => p.Masked ∧ st.table.node mem = none ∧ st.table.node mem' = none ∧ mem' ≠ mem
  | .lookup p => p.Masked
  | .longest p => p.Masked
  | .lock a => (st.table.node a).isSome
  | .unlock a => 0 < st.held a
  | .setInfo a _ => (st.table.node a).isSome
  | .clearInfo a => ∃ n, st.table.node a = some n ∧ n.info.isSome

end TableCall

/-- The states that calls lead to from an empty table. -/
inductive TableRun : TableState afi ι → Prop
  | init : TableRun {}
  | call {st st' : TableState afi ι} (call : TableCall afi ι) (hrun : TableRun st) (hvalid : call.Valid st)
      (hexec : call.exec st = some st') : TableRun st'

/-- The table is in order, and is the map. -/
structure TableState.Ok (st : TableState afi ι) : Prop where
  table : st.table.Ok st.held
  map : ∀ p i, st.map p = some i ↔ st.table.HasInfo p i

end Calls

/-! ## Every call returns and keeps the table in order -/

section Step
variable {afi : Afi} {ι : Type} {t : RouteTable afi ι} {held : Nat → Nat} {a : Nat} {p : Prefix afi}
  {n : RouteNode afi ι}

open RouteTable

theorem lockResult_spec {r : Option Nat} (h : t.Ok held) (hr : ∀ a, r = some a → ∃ n, t.node a = some n) :
    ∃ t', lockResult t r = some (r, t') ∧ t'.Ok (TableCall.hold held r) ∧ SameInfo t t' ∧ Stays t t' := by
  cases r with
  | none => exact ⟨t, rfl, h, fun _ _ => Iff.rfl, fun _ v hv => ⟨v, hv, rfl⟩⟩
  | some a =>
    obtain ⟨n, hn⟩ := hr a rfl
    obtain ⟨t', hlock, hok, hchg⟩ := h.routeLockNode (content_of_node hn)
    exact ⟨t', by rw [lockResult, hlock]; rfl, hok, hchg.sameInfo, hchg.stays⟩

/-- `route_node_lookup` returns the node of the prefix where something hangs on it. -/
theorem routeNodeLookup_spec (h : t.Ok held) (hp : p.Masked) :
    ∃ r t', routeNodeLookup t p = some (r, t') ∧ t'.Ok (TableCall.hold held r) ∧ SameInfo t t' ∧ Stays t t' ∧
      ∀ a, r = some a ↔ ∃ n, t.node a = some n ∧ n.p = p ∧ n.info.isSome := by
  obtain ⟨r, hloop, hfound, hnone⟩ := lookupLoop_spec h.linked (walks_top h.linked p)
  have hiff : ∀ a, r = some a ↔ ∃ n, t.node a = some n ∧ n.p = p ∧ n.info.isSome := by
    intro a
    constructor
    · intro hr
      by_cases hex : ∃ c m, t.tree.Reach t.top c ∧ t.node c = some m ∧ m.p.bits = p.bits
      · obtain ⟨c, m, hrch, hc, hbits⟩ := hex
        have hm := hfound c m hrch hc hbits
        rw [hr] at hm
        split at hm
        · rename_i hinfo
          cases hm
          exact ⟨m, hc, Prefix.eq_of_bits (h.masked (content_of_node hc)) hp hbits, hinfo⟩
        · cases hm
      · have := hnone fun c m hrch hc hbits => hex ⟨c, m, hrch, hc, hbits⟩
        rw [hr] at this
        cases this
    · rintro ⟨n, ha, rfl, hinfo⟩
      rw [hfound a n (h.linked.reach_top (tree_node ha)) ha rfl, if_pos hinfo]
  obtain ⟨t', hlock, hok, hinfo, hstays⟩ := lockResult_spec h fun a hr => ((hiff a).1 hr).imp fun _ h => h.1
  exact ⟨r, t', by rw [routeNodeLookup, hloop]; exact hlock, hok, hinfo, hstays, hiff⟩

/-- `route_node_match` returns the node of the longest prefix that contains `p` and on which something hangs. -/
theorem routeNodeMatch_spec (h : t.Ok held) (p : Prefix afi) :
    ∃ r t', routeNodeMatch t p = some (r, t') ∧ t'.Ok (TableCall.hold held r) ∧ SameInfo t t' ∧ Stays t t' ∧
      ((∃ a n, r = some a ∧ t.node a = some n ∧ n.info.isSome ∧ n.p.bits <+: p.bits ∧
          ∀ c m, t.node c = some m → m.info.isSome → m.p.bits <+: p.bits → m.p.bits <+: n.p.bits) ∨
        r = none ∧ ∀ c m, t.node c = some m → m.info.isSome → ¬ m.p.bits <+: p.bits) := by
  obtain ⟨r, hloop, hcase⟩ := matchLoop_spec h.linked (walks_top h.linked p) none
  have hrch : ∀ {c m}, t.node c = some m → t.tree.Reach t.top c := fun hm => h.linked.reach_top (tree_node hm)
  have hnode : ∀ a, r = some a → ∃ n, t.node a = some n := by
    intro a hr
    rcases hcase with ⟨c, hr', n, hc, -⟩ | ⟨hr', -⟩
    · rw [hr'] at hr
      cases hr
      exact ⟨n, hc⟩
    · rw [hr'] at hr
      cases hr
  obtain ⟨t', hlock, hok, hinfo, hstays⟩ := lockResult_spec h hnode
  refine ⟨r, t', by rw [routeNodeMatch, hloop]; exact hlock, hok, hinfo, hstays, ?_⟩
  rcases hcase with ⟨a, hr, n, ha, -, hinfo, hpre, hlong⟩ | ⟨hr, hno⟩
  · exact .inl ⟨a, n, hr, ha, hinfo, hpre, fun c m hm => hlong c m (hrch hm) hm⟩
  · exact .inr ⟨hr, fun c m hm => hno c m (hrch hm) hm⟩

/-- No two nodes have one prefix. -/
theorem addr_unique (h : t.tree.Linked) {c : Nat} {v w : Content afi ι} (ha : t.content a = some v)
    (hc : t.content c = some w) (hp : w.p = v.p) : c = a := by
  obtain ⟨n, hn, hnp, -⟩ := node_of_content ha
  obtain ⟨m, hm, hmp, -⟩ := node_of_content hc
  have hbits : n.p.bits = m.p.bits := by rw [hnp, hmp, hp]
  exact h.node_injective (tree_node hm) (hbits ▸ tree_node hn)

theorem hasInfo_changed {t' : RouteTable afi ι} {v v' : Content afi ι} (h : t.tree.Linked)
    (h' : t.Changes t' a v v') (q : Prefix afi) (j : ι) :
    t'.HasInfo q j ↔ if q = v.p then v'.info = some j else t.HasInfo q j := by
  constructor
  · rintro ⟨x, w, hx, rfl, hj⟩
    rcases content_cases h'.content hx with ⟨-, hy⟩ | ⟨hxa, hx⟩
    · cases hy
      rw [if_pos h'.p]
      exact hj
    · rw [if_neg fun hw => hxa (addr_unique h h'.old hx hw)]
      exact ⟨x, w, hx, rfl, hj⟩
  · intro hq
    split_ifs at hq with hqp
    · exact ⟨a, v', by rw [h'.content, update_self], h'.p.trans hqp.symm, hq⟩
    obtain ⟨x, w, hx, rfl, hj⟩ := hq
    refine ⟨x, w, ?_, rfl, hj⟩
    rw [h'.content, update_of_ne, hx]
    rintro rfl
    rw [h'.old, Option.some.injEq] at hx
    exact hqp (congrArg Content.p hx.symm)

theorem setInfo_spec (h : t.Ok held) (ha : t.node a = some n) (i : ι) :
    ∃ t', setInfo t a i = some t' ∧ t'.Ok held ∧ Stays t t' ∧
      ∀ q j, t'.HasInfo q j ↔ if q = n.p then some i = some j else t.HasInfo q j := by
  have hlock := h.lock (content_of_node ha)
  have hset : ∀ {k}, k = held a + 1 → (t.putNode a { n with lock := k, info := some i }).Ok held ∧
      Stays t (t.putNode a { n with lock := k, info := some i }) ∧ ∀ q j,
        (t.putNode a { n with lock := k, info := some i }).HasInfo q j ↔
          if q = n.p then some i = some j else t.HasInfo q j := by
    intro k hk
    have hchg := changes_putNode ha k (some i)
    have hok := h.changed hchg hk (hk ▸ Nat.succ_ne_zero _)
    rw [update_eq_self] at hok
    exact ⟨hok, hchg.stays, hasInfo_changed h.linked hchg⟩
  unfold setInfo
  rw [bind_of_some ha]
  split_ifs at hlock ⊢ with hsome
  · exact ⟨_, rfl, hset hlock⟩
  have hn' : (t.putNode a { n with info := some i }).node a = some { n with info := some i } := by
    rw [putNode_node, if_pos rfl]
  refine ⟨_, (modifyNode_eq hn').trans ?_, hset (congrArg (· + 1) hlock)⟩
  simp [putNode]

theorem clearInfo_spec (h : t.Ok held) (ha : t.node a = some n) (hsome : n.info.isSome) :
    ∃ t', clearInfo t a = some t' ∧ t'.Ok held ∧ SamePrefix t t' ∧
      ∀ q j, t'.HasInfo q j ↔ if q = n.p then none = some j else t.HasInfo q j := by
  have hlock := h.lock (content_of_node ha)
  rw [if_pos hsome] at hlock
  have hchg := changes_putNode ha n.lock none
  have hinfo := hasInfo_changed h.linked hchg
  -- the lock that is given back counts as one of a user's
  have hok : (t.putNode a { n with info := none }).Ok (update held a (held a + 1)) :=
    h.changed hchg hlock (hlock ▸ Nat.succ_ne_zero _)
  obtain ⟨t', hunl, hok', hsame, hold, -⟩ := routeUnlockNode_spec (k := held a) hok
    (by rw [hchg.content, update_self])
    (by dsimp only at hlock ⊢; omega) (by dsimp only at hlock; simp [hlock])
  rw [update_idem, update_eq_self] at hok'
  refine ⟨t', ?_, hok', hchg.stays.samePrefix_of_old hold, fun q j => (hsame q j).trans (hinfo q j)⟩
  unfold clearInfo
  rw [ha]
  exact hunl

/-- A lock that a user holds is given back. -/
theorem unlock_spec (h : t.Ok held) (hheld : 0 < held a) :
    ∃ t', routeUnlockNode t a = some t' ∧ t'.Ok (update held a (held a - 1)) ∧ SameInfo t t' ∧ SamePrefix t t' ∧
      ∀ x w, t.content x = some w → w.lock ≠ 0 → x ≠ a → t'.content x = some w := by
  have hlive : t.content a ≠ none := by
    intro hnone
    rw [h.gone hnone] at hheld
    exact absurd hheld (Nat.lt_irrefl 0)
  obtain ⟨v, hv⟩ := ne_none_iff_exists'.1 hlive
  have hlock := h.lock hv
  obtain ⟨t', hunl, hok, hsame, hold, hkeep⟩ := routeUnlockNode_spec (k := held a - 1) h hv (by omega) (by omega)
  exact ⟨t', hunl, hok, hsame, samePrefix_of_old hold, hkeep⟩

variable {st : TableState afi ι}

theorem TableState.Ok.map_same (h : st.Ok) (hsame : SameInfo st.table t) (p : Prefix afi) (i : ι) :
    st.map p = some i ↔ t.HasInfo p i := (h.map p i).trans (hsame p i).symm

/-- Every valid call returns, and the table stays in order and the map that the calls describe. -/
theorem TableState.Ok.step (h : st.Ok) {call : TableCall afi ι} (hvalid : call.Valid st) :
    ∃ st', call.exec st = some st' ∧ st'.Ok ∧ SamePrefix st.table st'.table := by
  have hupd : ∀ {t' : RouteTable afi ι} {q : Prefix afi} {r : Option ι},
      (∀ p i, t'.HasInfo p i ↔ if p = q then r = some i else st.table.HasInfo p i) →
      ∀ p i, update st.map q r p = some i ↔ t'.HasInfo p i := by
    intro t' q r ht' p i
    rw [ht', update_apply]
    split
    · exact Iff.rfl
    · exact h.map p i
  cases call with
  | get p mem mem' =>
    obtain ⟨hp, hmem, hmem', hne⟩ := hvalid
    obtain ⟨a, t', hget, hok, -, hsame, hstays⟩ := h.table.routeNodeGet hp hmem hmem' hne
    exact ⟨_, congrArg (Option.map _) hget, ⟨hok, h.map_same hsame⟩, hstays.samePrefix⟩
  | lookup p =>
    obtain ⟨r, t', hlk, hok, hsame, hstays, -⟩ := routeNodeLookup_spec h.table hvalid
    exact ⟨_, congrArg (Option.map _) hlk, ⟨hok, h.map_same hsame⟩, hstays.samePrefix⟩
  | longest p =>
    obtain ⟨r, t', hmatch, hok, hsame, hstays, -⟩ := routeNodeMatch_spec h.table p
    exact ⟨_, congrArg (Option.map _) hmatch, ⟨hok, h.map_same hsame⟩, hstays.samePrefix⟩
  | lock a =>
    obtain ⟨n, hn⟩ := isSome_iff_exists.1 hvalid
    obtain ⟨t', hlock, hok, hchg⟩ := h.table.routeLockNode (content_of_node hn)
    exact ⟨_, congrArg (Option.map _) hlock, ⟨hok, h.map_same hchg.sameInfo⟩, hchg.stays.samePrefix⟩
  | unlock a =>
    obtain ⟨t', hunl, hok, hsame, hprefix, -⟩ := unlock_spec h.table hvalid
    exact ⟨_, congrArg (Option.map _) hunl, ⟨hok, h.map_same hsame⟩, hprefix⟩
  | setInfo a i =>
    obtain ⟨n, hn⟩ := isSome_iff_exists.1 hvalid
    obtain ⟨t', hset, hok, hstays, hinfo⟩ := setInfo_spec h.table hn i
    refine ⟨{ st with table := t', map := update st.map n.p (some i) }, ?_, ⟨hok, hupd hinfo⟩, hstays.samePrefix⟩
    rw [TableCall.exec, bind_of_some hn, hset]
    rfl
  | clearInfo a =>
    obtain ⟨n, hn, hsome⟩ := hvalid
    obtain ⟨t', hclr, hok, hsame, hinfo⟩ := clearInfo_spec h.table hn hsome
    refine ⟨{ st with table := t', map := update st.map n.p none }, ?_, ⟨hok, hupd hinfo⟩, hsame⟩
    rw [TableCall.exec, bind_of_some hn, hclr]
    rfl

theorem TableRun.ok (hrun : TableRun st) : st.Ok := by
  induction hrun with
  | init =>
    refine ⟨empty_ok, fun p i => ?_⟩
    constructor
    · rintro ⟨⟩
    · rintro ⟨a, v, hv, -⟩
      cases hv
  | call call _ hvalid hexec ih =>
    obtain ⟨st', hexec', hok, -⟩ := ih.step hvalid
    rw [hexec] at hexec'
    cases hexec'
    exact hok

end Step

/-! ## The map -/

section Map
variable {afi : Afi} {ι : Type}

/-- A table that is the map `st.map` with longest-prefix match, and is built as it is meant to be. -/
structure TableState.Right (st : TableState afi ι) : Prop where
  /-- No assertion fails. -/
  returns : ∀ call : TableCall afi ι, call.Valid st → (call.exec st).isSome
  /-- The node is returned exactly where something hangs on the prefix, and it is what the map says. -/
  lookup : ∀ p : Prefix afi, p.Masked → ∃ r t, routeNodeLookup st.table p = some (r, t) ∧
    (r.isSome ↔ (st.map p).isSome) ∧ ∀ a, r = some a → ∃ n, st.table.node a = some n ∧ n.p = p ∧ n.info = st.map p
  /-- The longest prefix that contains `p` and on which something hangs. -/
  longest : ∀ p : Prefix afi, ∃ r t, routeNodeMatch st.table p = some (r, t) ∧
    (r = none → ∀ q, (st.map q).isSome → prefixMatch q p = false) ∧
    ∀ a, r = some a → ∃ n, st.table.node a = some n ∧ n.info = st.map n.p ∧ (st.map n.p).isSome ∧
      prefixMatch n.p p = true ∧
      ∀ q, (st.map q).isSome → prefixMatch q p = true → q.prefixlen ≤ n.p.prefixlen
  /-- A node with the prefix is returned, which is made where there is none. -/
  get : ∀ p mem mem', (TableCall.get p mem mem').Valid st → ∃ a t n,
    routeNodeGet st.table p mem mem' = some (a, t) ∧ t.node a = some n ∧ n.p = p
  count : st.table.count = { a | (st.table.node a).isSome }.ncard
  /-- The locks are those that users hold, and one of what hangs on the node. -/
  lock : ∀ a n, st.table.node a = some n → n.lock = st.held a + if n.info.isSome then 1 else 0
  /-- A child strictly extends the prefix of its parent, on the side that the next bit says. -/
  side : ∀ a n b c, st.table.node a = some n → n.link b = some c → ∃ m, st.table.node c = some m ∧ m.parent = some a ∧
    n.p.prefixlen < m.p.prefixlen ∧ prefixMatch n.p m.p = true ∧ prefixBit m.p.octets n.p.prefixlen = b
  children : ∀ a n, st.table.node a = some n → n.info = none → n.lock = 0 → ∀ b, (n.link b).isSome

open RouteTable

section
variable {st : TableState afi ι} (h : st.Ok)
include h

theorem TableState.Ok.info_eq {a : Nat} {n : RouteNode afi ι} (hn : st.table.node a = some n) (hinfo : n.info.isSome) :
    n.info = st.map n.p := by
  obtain ⟨i, hi⟩ := isSome_iff_exists.1 hinfo
  rw [(h.map n.p i).2 ⟨a, _, content_of_node hn, rfl, hi⟩, hi]

theorem TableState.Ok.node_of_map {q : Prefix afi} (hq : (st.map q).isSome) :
    ∃ c m, st.table.node c = some m ∧ m.p = q ∧ m.info.isSome := by
  obtain ⟨i, hi⟩ := isSome_iff_exists.1 hq
  obtain ⟨c, v, hv, hvp, hvi⟩ := (h.map q i).1 hi
  obtain ⟨m, hm, hmp, -, hminfo⟩ := node_of_content hv
  exact ⟨c, m, hm, hmp.trans hvp, by rw [hminfo, hvi]; rfl⟩

theorem TableState.Ok.right : st.Right where
  returns call hvalid := by
    obtain ⟨st', hexec, -⟩ := h.step hvalid
    rw [hexec]
    rfl
  lookup p hp := by
    obtain ⟨r, t', hlk, -, -, -, hiff⟩ := routeNodeLookup_spec h.table hp
    refine ⟨r, t', hlk, ⟨fun hr => ?_, fun hsome => ?_⟩, fun a ha => ?_⟩
    · obtain ⟨a, ha⟩ := isSome_iff_exists.1 hr
      obtain ⟨n, hn, rfl, hinfo⟩ := (hiff a).1 ha
      exact h.info_eq hn hinfo ▸ hinfo
    · obtain ⟨a, n, hn, hnp, hinfo⟩ := h.node_of_map hsome
      rw [(hiff a).2 ⟨n, hn, hnp, hinfo⟩]
      rfl
    · obtain ⟨n, hn, rfl, hinfo⟩ := (hiff a).1 ha
      exact ⟨n, hn, rfl, h.info_eq hn hinfo⟩
  longest p := by
    obtain ⟨r, t', hmatch, -, -, -, hcase⟩ := routeNodeMatch_spec h.table p
    refine ⟨r, t', hmatch, ?_, ?_⟩
    · intro hr q hq
      rcases hcase with ⟨a, n, hr', -⟩ | ⟨-, hnone⟩
      · rw [hr] at hr'
        cases hr'
      obtain ⟨c, m, hm, rfl, hminfo⟩ := h.node_of_map hq
      rw [← Bool.not_eq_true, prefixMatch_iff]
      exact hnone c m hm hminfo
    · intro a ha
      rcases hcase with ⟨c, n, hr, hn, hinfo, hpre, hlong⟩ | ⟨hr, -⟩
      · rw [ha] at hr
        cases hr
        have hmap := h.info_eq hn hinfo
        refine ⟨n, hn, hmap, hmap ▸ hinfo, prefixMatch_iff.2 hpre, fun q hq hqp => ?_⟩
        obtain ⟨c, m, hm, rfl, hminfo⟩ := h.node_of_map hq
        exact (Prefix.bits_prefix_iff.1 (hlong c m hm hminfo (prefixMatch_iff.1 hqp))).1
      · rw [ha] at hr
        cases hr
  get p mem mem' hvalid := by
    obtain ⟨hp, hmem, hmem', hne⟩ := hvalid
    obtain ⟨a, t, hget, -, ⟨v, hv, hvp⟩, -⟩ := h.table.routeNodeGet hp hmem hmem' hne
    obtain ⟨n, hn, hnp, -⟩ := node_of_content hv
    exact ⟨a, t, n, hget, hn, hnp.trans hvp⟩
  lock a n hn := h.table.lock (content_of_node hn)
  count := by
    rw [h.table.count]
    congr 1
    ext a
    unfold live content
    rw [Set.mem_ofPred_eq, Set.mem_ofPred_eq, isSome_map]
  side a n b c hn hc := by
    rw [← tree_slot hn] at hc
    obtain ⟨k, hk, hside⟩ := h.table.linked.side (tree_node hn) hc
    obtain ⟨m, hm, rfl, hpar⟩ := node_of_tree hk
    have hlt := length_lt_of_side hside
    rw [Prefix.bits_length, Prefix.bits_length] at hlt
    exact ⟨m, hm, hpar, hlt, prefixMatch_iff.2 (prefix_of_side hside), bit_of_side hside⟩
  children a n hn _ hlock b := by
    have := h.table.full (content_of_node hn) hlock nofun b
    rwa [tree_slot hn] at this

end

/-- After any calls the table is the map that the calls describe, with longest-prefix match. -/
theorem tableRun_right {st : TableState afi ι} (hrun : TableRun st) : st.Right := hrun.ok.right

/-- 10.0.0.0/24 with something on it, and 10.0.1.0/24; they part at a node that has no lock. -/
def partedCalls : List (TableCall .ip Nat) :=
  [.get (ip4 10 0 0 0 24 slash24_le) 1 2, .setInfo 1 7, .get (ip4 10 0 1 0 24 slash24_le) 2 3]

def partedState (k : Nat) : TableState .ip Nat := ((partedCalls.take k).foldlM TableCall.exec {}).getD {}

theorem partedState_run : TableRun (partedState 3) := by
  have h1 : TableRun (partedState 1) :=
    .call (.get (ip4 10 0 0 0 24 slash24_le) 1 2) .init ⟨by decide, rfl, rfl, by decide⟩ rfl
  have h2 : TableRun (partedState 2) := .call (.setInfo 1 7) h1 rfl rfl
  exact .call (.get (ip4 10 0 1 0 24 slash24_le) 2 3) h2 ⟨by decide, rfl, rfl, by decide⟩ rfl

theorem tableRun_right_parted : (partedState 3).table.count = 3 ∧ (partedState 3).Right :=
  ⟨rfl, tableRun_right partedState_run⟩

end Map

end Tarpan.Lib
