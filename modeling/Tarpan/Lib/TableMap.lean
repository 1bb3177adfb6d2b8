/-
A routing table is a map. Whatever calls are made, the pointers of the tree agree, a node without lock has two children,
the count is that of the nodes, and `route_node_lookup` and `route_node_match` find what the map says.
-/
import Tarpan.Lib.Table

namespace Tarpan.Lib

open Base Option Function Prod Prefix

namespace RouteTable

variable {afi : Afi} {ι : Type} {t t' : RouteTable afi ι} {a c : Nat} {b : Bool} {n m : RouteNode afi ι}
  {s : Option (Nat × Bool)} {p : Prefix afi} {held : Nat → Nat} {e : Option Nat} {v : Content afi ι}

/-! ## Tables in order -/

def live (t : RouteTable afi ι) : Set Nat := { a | (t.content a).isSome }

/-- The table is in order, where users hold `held a` locks of the node `a` and what hangs on a node holds one: but the
node `e` may have no lock and fewer than two children. -/
structure OkBut (t : RouteTable afi ι) (held : Nat → Nat) (e : Option Nat) : Prop where
  linked : t.tree.Linked
  masked : ∀ {a v}, t.content a = some v → v.p.Masked
  lock : ∀ {a v}, t.content a = some v → v.lock = held a + if v.info.isSome then 1 else 0
  gone : ∀ {a}, t.content a = none → held a = 0
  full : ∀ {a v}, t.content a = some v → v.lock = 0 → some a ≠ e → ∀ b, (t.tree.slot (some (a, b))).isSome
  finite : t.live.Finite

/-- The table is in order, and the nodes are counted. -/
structure Ok (t : RouteTable afi ι) (held : Nat → Nat) : Prop extends t.OkBut held none where
  count : t.count = t.live.ncard

theorem content_eq_none : t.content a = none ↔ t.node a = none := map_eq_none_iff

theorem empty_ok : ({} : RouteTable afi ι).Ok fun _ => 0 where
  linked := by
    constructor
    · rintro (_ | v) c h
      · cases h
      · cases h
    · intro c k q h
      cases h
  masked h := by cases h
  lock h := by cases h
  gone _ := rfl
  full h := by cases h
  finite := Set.Finite.subset Set.finite_empty fun a ha => by cases ha
  count := by
    have : ({} : RouteTable afi ι).live = ∅ := Set.eq_empty_of_forall_notMem fun a ha => by cases ha
    rw [this, Set.ncard_empty]

section Updated
variable {v' : Content afi ι} {y : Option (Content afi ι)} {k : Nat}

theorem content_cases (hcontent : t'.content = update t.content c y) {z : Option (Content afi ι)}
    (ha : t'.content a = z) :
    a = c ∧ y = z ∨ a ≠ c ∧ t.content a = z := by
  by_cases hac : a = c
  · exact .inl ⟨hac, by rw [← ha, hcontent, hac, update_self]⟩
  · exact .inr ⟨hac, by rw [← ha, hcontent, update_of_ne hac]⟩

theorem live_updated (hcontent : t'.content = update t.content c y) :
    t'.live = if y.isSome then insert c t.live else t.live \ {c} := by
  ext x
  by_cases hx : x = c <;> cases y <;> simp [live, hcontent, hx]

/-- The node `c` is new. It has the prefix `p`, and no lock yet. -/
structure Makes (t t' : RouteTable afi ι) (held : Nat → Nat) (c : Nat) (p : Prefix afi) : Prop
    extends OkBut t' held (some c) where
  new : t.content c = none
  count : t'.count = t.count
  content : t'.content = update t.content c (some ⟨p, 0, none⟩)

theorem Makes.ncard (h : t.Makes t' held c p) (hfinite : t.live.Finite) : t'.live.ncard = t.live.ncard + 1 := by
  rw [live_updated h.content, if_pos isSome_some, Set.ncard_insert_of_notMem (by simp [live, h.new]) hfinite]

/-- The node `c` has the content `v'` instead of `v`, and the tree stays. -/
structure Changes (t t' : RouteTable afi ι) (c : Nat) (v v' : Content afi ι) : Prop where
  old : t.content c = some v
  content : t'.content = update t.content c (some v')
  p : v'.p = v.p
  tree : t'.tree = t.tree
  count : t'.count = t.count

theorem changes_putNode (hn : t.node c = some n) (lock : Nat) (info : Option ι) :
    t.Changes (t.putNode c { n with lock, info }) c ⟨n.p, n.lock, n.info⟩ ⟨n.p, lock, info⟩ :=
  ⟨content_of_node hn, putNode_content, rfl, putNode_tree_eq hn rfl rfl rfl, rfl⟩

theorem Changes.live (h : t.Changes t' c v v') : t'.live = t.live := by
  rw [live_updated h.content, if_pos isSome_some, Set.insert_eq_of_mem (by simp [RouteTable.live, h.old])]

namespace OkBut

/-- One node is new, is changed or goes, and users hold `k` locks of it then. -/
theorem updated {e' : Option Nat} (h : t.OkBut held e) (hlnk : t'.tree.Linked)
    (hcontent : t'.content = update t.content c y)
    (hnew : ∀ v, y = some v → v.p.Masked ∧ v.lock = k + if v.info.isSome then 1 else 0) (hgone : y = none → k = 0)
    (hfull : ∀ x b v, t'.content x = some v → v.lock = 0 → some x ≠ e' →
      (x ≠ c → some x ≠ e → (t.tree.slot (some (x, b))).isSome) → (t'.tree.slot (some (x, b))).isSome) :
    t'.OkBut (update held c k) e' := by
  constructor
  · exact hlnk
  · intro x v hx
    rcases content_cases hcontent hx with ⟨-, hy⟩ | ⟨-, hx⟩
    · exact (hnew v hy).1
    · exact h.masked hx
  · intro x v hx
    rcases content_cases hcontent hx with ⟨rfl, hy⟩ | ⟨hxc, hx⟩
    · rw [update_self]
      exact (hnew v hy).2
    · rw [update_of_ne hxc]
      exact h.lock hx
  · intro x hx
    rcases content_cases hcontent hx with ⟨rfl, hy⟩ | ⟨hxc, hx⟩
    · rw [update_self]
      exact hgone hy
    · rw [update_of_ne hxc]
      exact h.gone hx
  · intro x v hx hlock hne b
    refine hfull x b v hx hlock hne fun hxc hxe => h.full ?_ hlock hxe b
    rwa [hcontent, update_of_ne hxc] at hx
  · rw [live_updated hcontent]
    split
    · exact h.finite.insert c
    · exact h.finite.sdiff

theorem added (h : t.OkBut held e) (hlnk : t'.tree.Linked) (hnew : t.content c = none) (hp : p.Masked)
    (hcnt : t'.count = t.count) (hcontent : t'.content = update t.content c (some ⟨p, 0, none⟩))
    (hfull : ∀ x b, (some x ≠ e → (t.tree.slot (some (x, b))).isSome) → (t'.tree.slot (some (x, b))).isSome) :
    t.Makes t' held c p := by
  refine ⟨?_, hnew, hcnt, hcontent⟩
  rw [← update_eq_self c held, h.gone hnew]
  refine h.updated hlnk hcontent (by rintro v ⟨⟩; exact ⟨hp, rfl⟩) (fun _ => rfl) fun x b v _ _ hne hold => ?_
  exact hfull x b (hold fun hxc => hne (congrArg some hxc))

theorem changed (h : t.OkBut held e) (h' : t.Changes t' c v v') (hlock : v'.lock = k + if v'.info.isSome then 1 else 0)
    {e' : Option Nat} (he : ∀ x, some x ≠ e' → x ≠ c → some x ≠ e)
    (hfull : v'.lock = 0 → some c ≠ e' → ∀ b, (t.tree.slot (some (c, b))).isSome) :
    t'.OkBut (update held c k) e' := by
  refine h.updated (h'.tree ▸ h.linked) h'.content (by rintro w ⟨⟩; exact ⟨h'.p ▸ h.masked h'.old, hlock⟩) nofun
    fun x b w hx hzero hne hold => ?_
  rw [h'.tree]
  rcases content_cases h'.content hx with ⟨rfl, hy⟩ | ⟨hxc, -⟩
  · cases hy
    exact hfull hzero hne b
  · exact hold hxc (he x hne hxc)

end OkBut

end Updated

/-! ## `route_lock_node` -/

/-- A node gets one more lock; the one that may have had none has one now. -/
theorem routeLockNode_spec (h : t.OkBut held e) (he : e = none ∨ e = some a) (ha : t.content a = some v) :
    ∃ t', routeLockNode t a = some t' ∧ t'.OkBut (update held a (held a + 1)) none ∧
      t.Changes t' a v { v with lock := v.lock + 1 } := by
  have hlock := h.lock ha
  obtain ⟨n, hn, rfl⟩ := map_eq_some_iff.1 ha
  have hchg := changes_putNode hn (n.lock + 1) n.info
  refine ⟨_, modifyNode_eq hn, h.changed hchg ?_ ?_ ?_, hchg⟩
  · dsimp only at hlock ⊢
    omega
  · rintro x - hxa rfl
    rcases he with he | he
    · cases he
    · exact hxa (some.inj he)
  · intro hzero
    cases hzero

/-! ## `route_node_get` -/

/-- What the slot of a node says of the node. -/
theorem node_of_slot (h : t.tree.Linked) (hs : t.tree.slot s = some a) (ha : t.node a = some n) :
    n.parent = s.map fst ∧ t.tree.Fits s n.p.bits :=
  h.place hs (tree_node ha)

theorem fits_putNew (hc : t.node c = none) (hfits : t.tree.Fits s p.bits) :
    s.map fst ≠ some c ∧ (t.putNode c { p }).tree.Fits s p.bits := by
  have hne : ∀ {a b}, s = some (a, b) → a ≠ c := by
    intro a b hs
    obtain ⟨u, q, ha, -⟩ := hfits a b hs
    exact PrefixTree.ne_of_node (tree_node_none hc) ha
  constructor
  · cases s with
    | none => rintro ⟨⟩
    | some v => exact fun heq => hne rfl (some.inj heq)
  · intro a b hs
    obtain ⟨u, q, ha, hu⟩ := hfits a b hs
    exact ⟨u, q, by rw [putNode_tree_node, update_of_ne (hne hs), ha], hu⟩

section Get
variable (h : t.OkBut held e) (hp : p.Masked) (hc : t.node c = none)
include h hp hc

theorem linkNew_attach (hslot : t.tree.slot s = none) (hfits : t.tree.Fits s p.bits)
    (hfull : ∀ a, e = some a → ∀ b, s = some (a, b) ∨ (t.tree.slot (some (a, b))).isSome) :
    ∃ t', linkNew (t.putNode c { p }) (s.map fst) c = some t' ∧ t.Makes t' held c p := by
  obtain ⟨hsc, hfits'⟩ := fits_putNew hc hfits
  obtain ⟨t', hlink, hcnt, hcontent, hslot', hnode'⟩ :=
    linkNew_spec (m := { p }) (by rw [putNode_node, if_pos rfl]) rfl hsc hfits'
  have htree : t'.tree = t.tree.attach s c p.bits := by
    refine PrefixTree.ext ?_ ?_
    · funext s'
      rw [hslot', putNew_slot hc fun _ => rfl, PrefixTree.attach_slot]
    · rw [hnode', putNode_tree_node, update_idem]
      rfl
  refine ⟨t', hlink, h.added ?_ (content_eq_none.2 hc) hp hcnt (by rw [hcontent, putNode_content]) ?_⟩
  · rw [htree]
    exact h.linked.attach hslot (tree_node_none hc) hfits
  · intro x b hold
    rw [htree, PrefixTree.attach_slot]
    split
    · rfl
    rename_i hne
    by_cases hxe : some x = e
    · exact (hfull x hxe.symm b).resolve_left fun hs => hne hs.symm
    · exact hold hxe

theorem linkNew_interpose (he : e = none) (hslot : t.tree.slot s = some a) (ha : t.node a = some n)
    (hfits : t.tree.Fits s p.bits) (hside : p.bits ++ [b] <+: n.p.bits) :
    ∃ t' t1, setLink (t.putNode c { p }) c a = some t1 ∧ linkNew t1 (s.map fst) c = some t' ∧
      t.Makes t' held c p ∧ t'.tree = t.tree.interpose s c p.bits b a n.p.bits := by
  have hca : c ≠ a := by
    rintro rfl
    rw [hc] at ha
    cases ha
  obtain ⟨hsc, hfits0⟩ := fits_putNew hc hfits
  have hscb : s ≠ some (c, b) := by
    rintro rfl
    exact hsc rfl
  have ha' : (t.putNode c { p }).node a = some n := by rw [putNode_node, if_neg hca.symm, ha]
  obtain ⟨t1, hset, hcnt1, hcon1, hslot1, hnode1⟩ :=
    setLink_spec (n := { p }) hca (by rw [putNode_node, if_pos rfl]) ha' hside
  have hc1 : t1.tree.node c = some (p.bits, none) := by
    rw [hnode1, update_of_ne hca, putNode_tree_node, update_self]
  obtain ⟨m1, hm1, hbits, hpar⟩ := node_of_tree hc1
  have hfits' : t1.tree.Fits s m1.p.bits := by
    intro d b' hs
    obtain ⟨u, q, hd, hu⟩ := hfits0 d b' hs
    rw [hbits]
    by_cases hda : d = a
    · rw [hda] at hd
      exact ⟨u, some c, by rw [hnode1, hda, update_self, PrefixTree.key_eq hd (tree_node ha')], hu⟩
    · exact ⟨u, q, by rw [hnode1, update_of_ne hda, hd], hu⟩
  obtain ⟨t', hlink, hcnt, hcontent, hslot', hnode'⟩ := linkNew_spec hm1 hpar hsc hfits'
  have htree : t'.tree = t.tree.interpose s c p.bits b a n.p.bits := by
    refine PrefixTree.ext ?_ ?_
    · funext s'
      rw [hslot', hslot1, putNew_slot hc fun _ => rfl, PrefixTree.interpose_slot]
      by_cases h1 : s' = s
      · rw [if_pos h1, if_neg (h1 ▸ hscb), if_pos h1]
      · rw [if_neg h1, if_neg h1]
    · rw [hnode', hnode1, putNode_tree_node, hbits, update_comm hca.symm, update_idem]
      rfl
  refine ⟨t', t1, hset, hlink, h.added ?_ (content_eq_none.2 hc) hp (hcnt.trans hcnt1)
    (by rw [hcontent, hcon1, putNode_content]) ?_, htree⟩
  · rw [htree]
    exact h.linked.interpose hslot (tree_node_none hc)
      (by rw [tree_node ha, (node_of_slot h.linked hslot ha).1]) hfits hside
  · intro x b' hold
    rw [htree, PrefixTree.interpose_slot]
    split
    · rfl
    split
    · rfl
    · exact hold (by simp [he])

end Get

/-- Something hangs on the prefix. -/
def HasInfo (t : RouteTable afi ι) (p : Prefix afi) (i : ι) : Prop :=
  ∃ a v, t.content a = some v ∧ v.p = p ∧ v.info = some i

/-- The tables are the same map. -/
def SameInfo (t t' : RouteTable afi ι) : Prop := ∀ p i, t'.HasInfo p i ↔ t.HasInfo p i

variable {t'' : RouteTable afi ι}

theorem SameInfo.trans (h : SameInfo t t') (h' : SameInfo t' t'') : SameInfo t t'' :=
  fun p i => (h' p i).trans (h p i)

/-- Every node stays, with its prefix. -/
def Stays (t t' : RouteTable afi ι) : Prop := ∀ x v, t.content x = some v → ∃ v', t'.content x = some v' ∧ v'.p = v.p

/-- A node that is there before and after has the prefix that it had. -/
def SamePrefix (t t' : RouteTable afi ι) : Prop := ∀ x v v', t.content x = some v → t'.content x = some v' → v'.p = v.p

theorem Stays.trans (h : Stays t t') (h' : Stays t' t'') : Stays t t'' := by
  intro x v hx
  obtain ⟨v', hx', hp⟩ := h x v hx
  obtain ⟨v'', hx'', hp'⟩ := h' x v' hx'
  exact ⟨v'', hx'', hp'.trans hp⟩

theorem Stays.samePrefix (h : Stays t t') : SamePrefix t t' := by
  intro x v v' hx hx'
  obtain ⟨w, hw, hp⟩ := h x v hx
  rw [hx', some.injEq] at hw
  rw [hw, hp]

/-- Where nodes stay, and then those that remain were there before. -/
theorem Stays.samePrefix_of_old (h : Stays t t')
    (hold : ∀ x w, t''.content x = some w → ∃ w', t'.content x = some w' ∧ w'.p = w.p) : SamePrefix t t'' := by
  intro x v v' hx hx'
  obtain ⟨w, hw, hp⟩ := hold x v' hx'
  rw [← hp]
  exact h.samePrefix x v w hx hw

theorem samePrefix_of_old (hold : ∀ x w, t'.content x = some w → ∃ w', t.content x = some w' ∧ w'.p = w.p) :
    SamePrefix t t' :=
  Stays.samePrefix_of_old (fun _ v hv => ⟨v, hv, rfl⟩) hold

variable {v' : Content afi ι} {k : Nat}

theorem stays_updated (hcontent : t'.content = update t.content c (some v'))
    (hp : ∀ v, t.content c = some v → v'.p = v.p) : Stays t t' := by
  intro x w hx
  rcases content_cases (a := x) hcontent rfl with ⟨rfl, hy⟩ | ⟨-, hold⟩
  · exact ⟨v', hy.symm, hp w hx⟩
  · exact ⟨w, hold.symm.trans hx, rfl⟩

theorem Makes.stays (h : t.Makes t' held c p) : Stays t t' :=
  stays_updated h.content fun w hw => by rw [h.new] at hw; cases hw

theorem Changes.stays (h : t.Changes t' c v v') : Stays t t' :=
  stays_updated h.content fun w hw => by rw [h.old] at hw; cases hw; exact h.p

/-- What hangs on the prefix of a node, with the prefix. -/
def Content.entry (v : Content afi ι) : Option (Prefix afi × ι) := v.info.map (v.p, ·)

theorem hasInfo_iff {i : ι} : t.HasInfo p i ↔ ∃ a, (t.content a).bind Content.entry = some (p, i) := by
  simp [HasInfo, bind_eq_some_iff, Content.entry, and_comm]

theorem sameInfo_updated {y : Option (Content afi ι)} (hcontent : t'.content = update t.content c y)
    (hent : y.bind Content.entry = (t.content c).bind Content.entry) : SameInfo t t' := by
  intro q i
  rw [hasInfo_iff, hasInfo_iff]
  refine exists_congr fun x => ?_
  rcases content_cases (a := x) hcontent rfl with ⟨rfl, hy⟩ | ⟨-, hold⟩
  · rw [← hy, hent]
  · rw [hold]

theorem Makes.sameInfo (h : t.Makes t' held c p) : SameInfo t t' := sameInfo_updated h.content (by rw [h.new]; rfl)

theorem Changes.sameInfo (h : t.Changes t' c v { v with lock := k }) : SameInfo t t' :=
  sameInfo_updated h.content (by rw [h.old]; rfl)

theorem Ok.changed (h : t.Ok held) (h' : t.Changes t' c v v') (hlock : v'.lock = k + if v'.info.isSome then 1 else 0)
    (hne : v'.lock ≠ 0) : t'.Ok (update held c k) :=
  ⟨h.toOkBut.changed h' hlock (fun _ hx _ => hx) fun hzero => absurd hzero hne, by rw [h'.live, h'.count, h.count]⟩

theorem Ok.routeLockNode (h : t.Ok held) (ha : t.content a = some v) :
    ∃ t', routeLockNode t a = some t' ∧ t'.Ok (update held a (held a + 1)) ∧
      t.Changes t' a v { v with lock := v.lock + 1 } := by
  obtain ⟨t', hlock, hok, hchg⟩ := routeLockNode_spec h.toOkBut (.inl rfl) ha
  refine ⟨t', hlock, ⟨hok, ?_⟩, hchg⟩
  rw [hchg.count, hchg.live]
  exact h.count

/-- The last lock of `route_node_get`, where `k` nodes were made. -/
theorem routeLockNode_new {t1 t2 : RouteTable afi ι} (h : t.Ok held) (h₁ : t1.Makes t2 held c p)
    (hfinite : t1.live.Finite)
    (hcnt : t1.count = t.count) (hlive : t1.live.ncard + 1 = t.live.ncard + k) (hinfo : SameInfo t t1)
    (hstays : Stays t t1) :
    ∃ t', routeLockNode { t2 with count := t2.count + k } c = some t' ∧ t'.Ok (update held c (held c + 1)) ∧
      (∃ v, t'.content c = some v ∧ v.p = p) ∧ SameInfo t t' ∧ Stays t t' := by
  have h2 : ({ t2 with count := t2.count + k } : RouteTable afi ι).OkBut held (some c) := { h₁ with }
  have hc : t2.content c = some ⟨p, 0, none⟩ := by rw [h₁.content, update_self]
  obtain ⟨t', hlock, hok, hchg⟩ := routeLockNode_spec h2 (.inr rfl) hc
  refine ⟨t', hlock, ⟨hok, ?_⟩, ⟨_, by rw [hchg.content, update_self], rfl⟩,
    (hinfo.trans h₁.sameInfo).trans hchg.sameInfo, (hstays.trans h₁.stays).trans hchg.stays⟩
  rw [hchg.count, hchg.live]
  change t2.count + k = t2.live.ncard
  rw [h₁.ncard hfinite, hlive, h₁.count, hcnt, h.count]

/-- What lies above a node and a prefix lies above the place where they part. -/
theorem fits_parted {u : List Bool} (h : t.tree.Linked) (hslot : t.tree.slot s = some a) (ha : t.node a = some n)
    (hfits : t.tree.Fits s p.bits) (hn : u ++ [b] <+: n.p.bits) (hcom : u = p.bits ∨ u ++ [!b] <+: p.bits) :
    t.tree.Fits s u := by
  intro d b' hs
  obtain ⟨w, q, hd, hw⟩ := hfits d b' hs
  refine ⟨w, q, hd, ?_⟩
  rcases hcom with rfl | hpside
  · exact hw
  obtain ⟨k, hk, hsfits⟩ := h.held hslot
  obtain ⟨m, hm, rfl, -⟩ := node_of_tree hk
  cases ha.symm.trans hm
  refine prefix_of_parted hn hpside (by simp) ?_ hw
  subst hs
  exact hsfits.side hd

/-- The node of the prefix hangs below the one that was made first, which has a child on its other side. -/
theorem setLink_below {q : Prefix afi} (h : t.Makes t' held c q) (hp : p.Masked) (hd : t'.node d = none)
    (hslot : t'.tree.slot (some (c, !b)) = none) (hother : (t'.tree.slot (some (c, b))).isSome)
    (hside : q.bits ++ [!b] <+: p.bits) :
    ∃ t3, setLink (t'.putNode d { p }) c d = some t3 ∧ t'.Makes t3 held d p := by
  refine linkNew_attach h.toOkBut hp hd hslot ?_ fun x hx b' => ?_
  · rintro x b' ⟨⟩
    obtain ⟨m, hm, hmp, -⟩ := node_of_content (t := t') (a := c) (by rw [h.content, update_self])
    exact ⟨_, _, tree_node hm, by rw [hmp]; exact hside⟩
  · cases hx
    by_cases hb : b' = b
    · exact .inr (hb ▸ hother)
    · exact .inl (by rw [Bool.eq_not_of_ne hb])

/-- `route_node_get` returns a node with the prefix, locked once more, and the map stays. -/
theorem Ok.routeNodeGet {mem mem' : Nat} (h : t.Ok held) (hp : p.Masked) (hmem : t.node mem = none)
    (hmem' : t.node mem' = none) (hne : mem' ≠ mem) :
    ∃ a t', routeNodeGet t p mem mem' = some (a, t') ∧ t'.Ok (update held a (held a + 1)) ∧
      (∃ v, t'.content a = some v ∧ v.p = p) ∧ SameInfo t t' ∧ Stays t t' := by
  have hlnk := h.linked
  have hstart : t.tree.Fits none p.bits := by rintro a b ⟨⟩
  unfold Lib.routeNodeGet
  rcases getLoop_spec hlnk (walks_top hlnk p) none rfl hstart with ⟨a, n, hloop, ha, hbits⟩ | ⟨s, hloop, hfits, hapart⟩
  · rw [map_none] at hloop
    rw [bind_of_some hloop]
    have hcontent := content_of_node ha
    have hmasked := h.masked hcontent
    obtain ⟨t', hlock, hok, hchg⟩ := h.routeLockNode hcontent
    dsimp only
    rw [hlock]
    refine ⟨a, t', rfl, hok, ⟨_, by rw [hchg.content, update_self], ?_⟩, hchg.sameInfo, hchg.stays⟩
    exact eq_of_bits hmasked hp hbits
  rw [map_none] at hloop
  rw [bind_of_some hloop]
  have hlast := fun {c t2} (hmakes : t.Makes t2 held c p) =>
    routeLockNode_new h hmakes h.finite rfl rfl (fun _ _ => Iff.rfl) fun _ v hv => ⟨v, hv, rfl⟩
  cases hslot : t.tree.slot s with
  | none =>
    obtain ⟨t1, hlink, hmakes⟩ := linkNew_attach h.toOkBut hp hmem hslot hfits fun a ha => by cases ha
    obtain ⟨t', hlock, hpost⟩ := hlast hmakes
    refine ⟨mem, t', ?_, hpost⟩
    dsimp only
    rw [bind_of_some hlink, hlock]
    rfl
  | some a =>
    obtain ⟨k, hk, -⟩ := hlnk.held hslot
    obtain ⟨n, ha, rfl, -⟩ := node_of_tree hk
    obtain ⟨b, hn, hcom⟩ := routeCommon_spec (hapart a n hslot ha)
    have hmasked := routeCommon_masked n.p p
    obtain ⟨t2, t1, hset, hlink, hmakes, htree2⟩ :=
      linkNew_interpose h.toOkBut hmasked hmem rfl hslot ha (fits_parted hlnk hslot ha hfits hn hcom) hn
    dsimp only
    rw [bind_of_some ha, hset, bind_eq_bind, bind_some, hlink, bind_some]
    by_cases hlen : (routeCommon n.p p).prefixlen = p.prefixlen
    · rw [if_neg (not_not.2 hlen)]
      have heq : routeCommon n.p p = p :=
        eq_of_bits hmasked hp (bits_eq_of_prefixlen (routeCommon_prefix_right n.p p) hlen)
      rw [heq] at hmakes
      obtain ⟨t', hlock, hpost⟩ := hlast hmakes
      exact ⟨mem, t', by rw [hlock]; rfl, hpost⟩
    · rw [if_pos hlen]
      have hpside : (routeCommon n.p p).bits ++ [!b] <+: p.bits :=
        hcom.resolve_left fun heq => hlen (prefixlen_eq_of_bits heq)
      have hmem2 : t2.node mem' = none := by
        rw [← content_eq_none, hmakes.content, update_of_ne hne, content_eq_none, hmem']
      have hslot2 : t2.tree.slot (some (mem, !b)) = none := by
        rw [htree2, PrefixTree.interpose_slot, if_neg (by simp), if_neg, tree_slot_none hmem]
        rintro rfl
        rw [tree_slot_none hmem] at hslot
        cases hslot
      have hother : (t2.tree.slot (some (mem, b))).isSome := by
        rw [htree2, PrefixTree.interpose_slot, if_pos rfl]
        rfl
      obtain ⟨t3, hlink3, hmakes3⟩ := setLink_below hmakes hp hmem2 hslot2 hother hpside
      obtain ⟨t', hlock, hpost⟩ := routeLockNode_new (k := 2) h hmakes3 hmakes.finite hmakes.count
        (by rw [hmakes.ncard h.finite]) hmakes.sameInfo hmakes.stays
      exact ⟨mem', t', by rw [hlink3, bind_some, hlock]; rfl, hpost⟩

/-! ## `route_unlock_node` -/

/-- A pointer to a child, with the string of the child. -/
def childKey (t : RouteTable afi ι) (child : Option Nat) : Option (Nat × List Bool) :=
  child.bind fun d => (t.node d).map fun m => (d, m.p.bits)

theorem setParent_spec {child : Option Nat} (parent : Option Nat)
    (hchd : ∀ d, child = some d → ∃ m, t.node d = some m) :
    ∃ t', setParent t child parent = some t' ∧ t'.count = t.count ∧ t'.content = t.content ∧
      t'.tree.slot = t.tree.slot ∧
      (∀ x, child ≠ some x → t'.node x = t.node x) ∧
      ∀ d m, child = some d → t.node d = some m → t'.node d = some { m with parent } := by
  cases child with
  | none => exact ⟨t, rfl, rfl, rfl, rfl, fun _ _ => rfl, fun d m hd => by cases hd⟩
  | some d =>
    obtain ⟨m, hm⟩ := hchd d rfl
    refine ⟨t.putNode d { m with parent }, modifyNode_eq hm, rfl, putNode_content_eq hm rfl rfl rfl,
      putNode_slot_eq hm rfl,
      fun x hx => ?_, ?_⟩
    · rw [putNode_node, if_neg]
      rintro rfl
      exact hx rfl
    · rintro d' m' ⟨⟩ hm'
      rw [hm] at hm'
      cases hm'
      rw [putNode_node, if_pos rfl]

theorem unlink_spec (child : Option Nat) (hs : t.tree.slot s = some a)
    (hside : ∀ q, s = some (q, true) → t.tree.slot (some (q, false)) ≠ some a) :
    ∃ t', unlink t a (s.map fst) child = some t' ∧ t'.count = t.count ∧ t'.content = t.content ∧
      (∀ s', t'.tree.slot s' = if s' = s then child else t.tree.slot s') ∧ t'.tree.node = t.tree.node := by
  cases s with
  | none =>
    refine ⟨{ t with top := child }, rfl, rfl, rfl, ?_, rfl⟩
    rintro (_ | v)
    · rfl
    · rfl
  | some v =>
    obtain ⟨q, b⟩ := v
    obtain ⟨n, hn, hlink⟩ := bind_eq_some_iff.1 hs
    have hb : (if n.link false = some a then false else true) = b := by
      cases b with
      | false => exact if_pos hlink
      | true =>
        refine if_neg fun hfalse => hside q rfl ?_
        rw [tree_slot hn, hfalse]
    refine ⟨t.putNode q { n with link := update n.link b child }, ?_, rfl, putNode_content_eq hn rfl rfl rfl,
      putNode_link hn b child, putNode_node_eq hn rfl rfl⟩
    rw [← hb]
    exact modifyNode_eq hn

/-- What `route_node_delete` does to a node with one child at most. -/
theorem deleteStep_spec (h : t.tree.Linked) (ha : t.node a = some n) (hs : t.tree.slot s = some a)
    (hother : n.link (!b) = none) :
    ∃ t1 t2, setParent t (n.link b) n.parent = some t1 ∧ unlink t1 a n.parent (n.link b) = some t2 ∧
      t2.count = t.count ∧ (freeNode t2 a).content = update t.content a none ∧ (freeNode t2 a).tree.Linked ∧
      ∀ s', s' ≠ s → s'.map fst ≠ some a → (freeNode t2 a).tree.slot s' = t.tree.slot s' := by
  obtain ⟨hpar, hfits⟩ := node_of_slot h hs ha
  have hchd : ∀ d, n.link b = some d → ∃ m, t.node d = some m ∧ m.parent = some a ∧ n.p.bits ++ [b] <+: m.p.bits := by
    intro d hd
    rw [← tree_slot ha] at hd
    obtain ⟨kd, hkd, hside⟩ := h.side (tree_node ha) hd
    obtain ⟨m, hm, rfl, hmp⟩ := node_of_tree hkd
    exact ⟨m, hm, hmp, hside⟩
  obtain ⟨t1, hset, hcnt1, hcon1, hslot1, hnode1, hnode1'⟩ := setParent_spec (t := t) n.parent
    fun d hd => (hchd d hd).imp fun _ h => h.1
  have hs1 : t1.tree.slot s = some a := by rw [hslot1, hs]
  obtain ⟨t2, hunlink, hcnt2, hcon2, hslot2, hnode2⟩ := unlink_spec (n.link b) hs1 fun q hq => by
    rintro hfalse
    rw [hslot1] at hfalse
    have := h.slot_unique hs hfalse
    rw [hq] at this
    cases this
  rw [← hpar] at hunlink
  have hsa : s.map fst ≠ some a := h.slot_apart hs (tree_node ha)
  have hkey : (t.childKey (n.link b)).map fst = n.link b := by
    unfold childKey
    cases hd : n.link b with
    | none => rfl
    | some d =>
      obtain ⟨m, hm, -⟩ := hchd d hd
      rw [bind_some, hm]
      rfl
  have htree : (freeNode t2 a).tree = t.tree.splice s a (t.childKey (n.link b)) := by
    refine PrefixTree.ext ?_ ?_
    · funext s'
      rw [PrefixTree.splice_slot, hkey, freeNode_slot, hslot2, hslot1]
      by_cases h1 : s' = s
      · rw [if_pos h1, if_neg (h1 ▸ hsa), if_pos h1]
      · rw [if_neg h1, if_neg h1]
    · funext x
      rw [freeNode_node, hnode2, update_apply]
      unfold PrefixTree.splice
      dsimp only
      split
      · rfl
      unfold childKey
      cases hd : n.link b with
      | none =>
        dsimp only [bind_none]
        unfold tree
        dsimp only
        rw [hnode1 x (by rw [hd]; simp)]
      | some d =>
        obtain ⟨m, hm, -⟩ := hchd d hd
        rw [bind_some, hm]
        dsimp only [map_some]
        split_ifs with hx
        · rw [hx, tree_node (hnode1' d m hd hm), hpar]
        unfold tree
        dsimp only
        rw [hnode1 x]
        rw [hd]
        exact fun h => hx (some.inj h).symm
  refine ⟨t1, t2, hset, hunlink, hcnt2.trans hcnt1, ?_, ?_, ?_⟩
  · rw [freeNode_content, hcon2, hcon1]
  · rw [htree]
    refine h.splice ⟨hs, hpar ▸ tree_node ha, (tree_slot ha _).trans hother, (tree_slot ha b).trans hkey.symm, ?_⟩
    intro d kd hd
    obtain ⟨d', hd', hm'⟩ := bind_eq_some_iff.1 hd
    obtain ⟨m, hm, hmp, -⟩ := hchd d' hd'
    rw [hm, map_some, some.injEq, Prod.mk.injEq] at hm'
    obtain ⟨rfl, rfl⟩ := hm'
    rw [tree_node hm, hmp]
  · intro s' hs' hs'a
    rw [freeNode_slot, if_neg hs'a, hslot2, if_neg hs', hslot1]

theorem OkBut.info_eq_none {v : Content afi ι} (h : t.OkBut held e) (ha : t.content a = some v) (hlock : v.lock = 0) :
    v.info = none := by
  have := h.lock ha
  cases hi : v.info with
  | none => rfl
  | some i =>
    rw [hi, isSome_some, if_pos rfl] at this
    omega

/-- No exception is needed for a node that has a lock or two children. -/
theorem OkBut.whole (h : t.OkBut held (some a))
    (hfull : ∀ v, t.content a = some v → v.lock = 0 → ∀ b, (t.tree.slot (some (a, b))).isSome) : t.OkBut held none := by
  refine { h with full := ?_ }
  intro x w hx hw _ b
  by_cases hxa : x = a
  · subst hxa
    exact hfull w hx hw b
  · exact h.full hx hw (fun heq => hxa (some.inj heq)) b

/-- What a table keeps when nodes that have no lock are freed. -/
structure Freed (t t' : RouteTable afi ι) : Prop where
  info : SameInfo t t'
  less : ∀ x w, t'.content x = some w → t.content x = some w
  stays : ∀ x w, t.content x = some w → w.lock ≠ 0 → t'.content x = some w

theorem Freed.refl (t : RouteTable afi ι) : Freed t t := ⟨fun _ _ => Iff.rfl, fun _ _ => id, fun _ _ h _ => h⟩

theorem Freed.trans (h : Freed t t') (h' : Freed t' t'') : Freed t t'' :=
  ⟨h.info.trans h'.info, fun x w hx => h.less x w (h'.less x w hx),
    fun x w hx hw => h'.stays x w (h.stays x w hx hw) hw⟩

theorem freed_updated {v : Content afi ι} (hcontent : t'.content = update t.content a none) (ha : t.content a = some v)
    (hlock : v.lock = 0) (hinfo : v.info = none) : Freed t t' where
  info := sameInfo_updated hcontent (by rw [ha, bind_some, Content.entry, hinfo]; rfl)
  less x w hx := by
    rcases content_cases hcontent hx with ⟨-, hy⟩ | ⟨-, hx⟩
    · cases hy
    · exact hx
  stays x w hx hw := by
    rw [hcontent, update_of_ne, hx]
    rintro rfl
    rw [ha] at hx
    cases hx
    exact hw hlock

/-- The parent of a node has a shorter prefix. -/
theorem parent_content {q : Nat} (h : t.tree.Linked) (hn : t.node a = some n) (hq : n.parent = some q) :
    ∃ w, t.content q = some w ∧ w.p.prefixlen.toNat < n.p.prefixlen.toNat := by
  obtain ⟨s, hs⟩ := h.placed (tree_node hn)
  obtain ⟨hpar, hfits⟩ := node_of_slot h hs hn
  obtain ⟨⟨q', b'⟩, rfl, rfl⟩ := map_eq_some_iff.1 (hpar.symm.trans hq)
  obtain ⟨u, qq, hqnode, hu⟩ := hfits q' b' rfl
  obtain ⟨m, hm, rfl, -⟩ := node_of_tree hqnode
  have hlen := length_lt_of_side hu
  rw [bits_length, bits_length] at hlen
  exact ⟨_, content_of_node hm, hlen⟩

/-- One turn of `route_node_delete` frees the node; its parent is the next that may be one too many. -/
theorem deleteTurn_spec {v : Content afi ι} (h : t.OkBut held (some a)) (hcnt : t.count = t.live.ncard)
    (ha : t.content a = some v) (hlock : v.lock = 0) (hn : t.node a = some n) (hother : n.link (!b) = none) :
    ∃ t1 t2, setParent t (n.link b) n.parent = some t1 ∧ unlink t1 a n.parent (n.link b) = some t2 ∧
      (freeNode t2 a).OkBut held n.parent ∧ (freeNode t2 a).count = (freeNode t2 a).live.ncard ∧
      Freed t (freeNode t2 a) ∧ ∀ q, n.parent = some q →
        ∃ w, (freeNode t2 a).content q = some w ∧ w.p.prefixlen.toNat < n.p.prefixlen.toNat := by
  obtain ⟨s, hs⟩ := h.linked.placed (tree_node hn)
  obtain ⟨hpar, -⟩ := node_of_slot h.linked hs hn
  obtain ⟨t1, t2, hset, hunlink, hcnt2, hcontent, hlnk, hsl⟩ := deleteStep_spec h.linked hn hs hother
  refine ⟨t1, t2, hset, hunlink, ?_, ?_, freed_updated hcontent ha hlock (h.info_eq_none ha hlock), ?_⟩
  · rw [← update_eq_self a held]
    refine h.updated hlnk hcontent nofun (fun _ => ?_) fun x b' w hx _ hxe hold => ?_
    · have := h.lock ha
      omega
    rcases content_cases hcontent hx with ⟨-, hy⟩ | ⟨hxa, -⟩
    · cases hy
    rw [hsl (some (x, b'))]
    · exact hold hxa fun heq => hxa (some.inj heq)
    · intro heq
      rw [hpar, ← heq] at hxe
      exact hxe rfl
    · exact fun heq => hxa (some.inj heq)
  · rw [live_updated hcontent, if_neg (by simp), Set.ncard_sdiff_singleton_of_mem (by simp [live, ha]), ← hcnt, ← hcnt2]
    rfl
  · intro q hq
    obtain ⟨w, hw, hlen⟩ := parent_content h.linked hn hq
    refine ⟨w, ?_, hlen⟩
    rw [hcontent, update_of_ne, hw]
    rintro rfl
    rw [content_of_node hn] at hw
    cases hw
    exact lt_irrefl _ hlen

/-- `route_node_delete` on a node without lock brings the table in order. Nodes that have locks stay. -/
theorem routeNodeDelete_spec : ∀ {turns a : Nat} {t : RouteTable afi ι} {v : Content afi ι}, t.OkBut held (some a) →
    t.count = t.live.ncard → t.content a = some v → v.lock = 0 → v.p.prefixlen.toNat < turns →
    ∃ t', routeNodeDelete t turns a = some t' ∧ t'.Ok held ∧ Freed t t' := by
  intro turns
  induction turns with
  | zero => intro a t v _ _ _ _ hturns; omega
  | succ turns ih =>
    intro a t v h hcnt ha hlock hturns
    obtain ⟨n, hn, hnp, hnlock, hninfo⟩ := node_of_content ha
    rw [routeNodeDelete, hn, bind_eq_bind, bind_some,
      if_neg (by rw [hnlock, hninfo, h.info_eq_none ha hlock]; simp [hlock])]
    by_cases hboth : (n.link false).isSome ∧ (n.link true).isSome
    · rw [if_pos hboth]
      refine ⟨t, rfl, ⟨h.whole fun _ _ _ b => ?_, hcnt⟩, .refl t⟩
      rw [tree_slot hn]
      cases b
      · exact hboth.1
      · exact hboth.2
    rw [if_neg hboth]
    obtain ⟨b, hchd, hother⟩ : ∃ b, (if (n.link false).isSome then n.link false else n.link true) = n.link b ∧
        n.link (!b) = none := by
      by_cases hleft : (n.link false).isSome
      · refine ⟨false, if_pos hleft, ?_⟩
        by_contra hright
        exact hboth ⟨hleft, isSome_iff_ne_none.2 hright⟩
      · exact ⟨true, if_neg hleft, not_isSome_iff_eq_none.1 hleft⟩
    obtain ⟨t1, t2, hset, hunlink, hok, hcnt', hfreed, hparent⟩ := deleteTurn_spec h hcnt ha hlock hn hother
    rw [hchd]
    dsimp only
    rw [hset, bind_eq_bind, bind_some, hunlink, bind_some]
    cases hq : n.parent with
    | none =>
      rw [hq] at hok
      exact ⟨freeNode t2 a, rfl, ⟨hok, hcnt'⟩, hfreed⟩
    | some q =>
      rw [hq] at hok
      obtain ⟨w, hw, hlen⟩ := hparent q hq
      obtain ⟨m, hm, -, hmlock, -⟩ := node_of_content hw
      dsimp only
      rw [hm, bind_some]
      split_ifs with hzero
      · obtain ⟨t', hdel, hok', hfreed'⟩ := ih hok hcnt' hw (hmlock.symm.trans hzero) (by rw [hnp] at hlen; omega)
        exact ⟨t', hdel, hok', hfreed.trans hfreed'⟩
      · refine ⟨freeNode t2 a, rfl, ⟨hok.whole fun v hv hvlock => ?_, hcnt'⟩, hfreed⟩
        rw [hw, some.injEq] at hv
        exact absurd (hmlock.trans (hv ▸ hvlock)) hzero

/-- `route_unlock_node`, with a lock that a user holds or that what hangs on the node held. -/
theorem routeUnlockNode_spec (h : t.Ok held) (ha : t.content a = some v)
    (hlock : v.lock ≠ 0) (hk : v.lock - 1 = k + if v.info.isSome then 1 else 0) :
    ∃ t', routeUnlockNode t a = some t' ∧ t'.Ok (update held a k) ∧ SameInfo t t' ∧
      (∀ x w, t'.content x = some w → ∃ w', t.content x = some w' ∧ w'.p = w.p) ∧
      ∀ x w, t.content x = some w → w.lock ≠ 0 → x ≠ a → t'.content x = some w := by
  obtain ⟨n, hn, rfl⟩ := map_eq_some_iff.1 ha
  have hchg := changes_putNode hn (n.lock - 1) n.info
  unfold Lib.routeUnlockNode
  rw [bind_of_some hn, if_neg hlock]
  generalize t.putNode a { n with lock := n.lock - 1 } = t1 at hchg ⊢
  have hsame : SameInfo t t1 := hchg.sameInfo
  have hold : ∀ x w, t1.content x = some w → ∃ w', t.content x = some w' ∧ w'.p = w.p := by
    intro x w hx
    rcases content_cases hchg.content hx with ⟨rfl, hy⟩ | ⟨-, hx⟩
    · cases hy
      exact ⟨_, ha, rfl⟩
    · exact ⟨w, hx, rfl⟩
  have hkeep : ∀ x w, t.content x = some w → x ≠ a → t1.content x = some w := by
    intro x w hx hxa
    rw [hchg.content, update_of_ne hxa, hx]
  split_ifs with hzero
  · have hok : t1.OkBut (update held a k) (some a) := by
      refine h.toOkBut.changed hchg hk ?_ ?_
      · rintro x - hxa ⟨⟩
      · intro _ hne
        exact absurd rfl hne
    obtain ⟨t', hdel, hok', hfreed⟩ := routeNodeDelete_spec hok
      (by rw [hchg.live, hchg.count, h.count]) (by rw [hchg.content, update_self]) hzero (Nat.lt_succ_self _)
    exact ⟨t', hdel, hok', hsame.trans hfreed.info, fun x w hx => hold x w (hfreed.less x w hx),
      fun x w hx hw hxa => hfreed.stays x w (hkeep x w hx hxa) hw⟩
  · exact ⟨_, rfl, h.changed hchg hk hzero, hsame, hold, fun x w hx _ hxa => hkeep x w hx hxa⟩

end RouteTable

end Tarpan.Lib
