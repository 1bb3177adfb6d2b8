/-
What the Babel route table keeps: the slots are in order and hold the allocated routes, the routes of a prefix differ in
neighbour or next hop, the installed route of a slot is its first one, and the sources count the routes that refer to
them.
-/
import Tarpan.Babeld.Slots
import Tarpan.Base.Outcome

namespace Tarpan.Babeld

open Base List Function

variable {t t' : Table} {env : Env} {pfx : BitVec 128} {plen : UInt8} {a b c i n : Nat} {e : Nat → Nat}
  {l1 l2 : List (List Nat)} {s : List Nat}

def Table.routes (t : Table) : List Nat := t.slots.flatten

theorem routes_congr (h : t'.slots = t.slots) : t'.routes = t.routes := congrArg flatten h

/-- What tells one route of a prefix from another, and its source. -/
def BabelRoute.place (r : BabelRoute) : Nat × Nat × BitVec 128 := (r.src, r.neigh, r.nexthop)

/-- The prefix of a source, and its number of references. -/
def Source.frame (src : Source) : BitVec 128 × UInt8 × UInt16 := (src.pfx, src.plen, src.routeCount)

/-- The table is in order, but for the place of the installed routes, and each source `c` counts `e c` more than the
routes that refer to it. -/
structure Table.Shaped (e : Nat → Nat) (t : Table) : Prop where
  slots : SlotsOk t.key t.slots
  nodup : t.routes.Nodup
  heap : ∀ a, a ∈ t.heap ↔ a ∈ t.routes
  distinct : ∀ a ∈ t.routes, ∀ b ∈ t.routes, t.key a = t.key b → (t.route a).neigh = (t.route b).neigh →
    (t.route a).nexthop = (t.route b).nexthop → a = b
  refers : ∀ a ∈ t.routes, (t.route a).src ∈ t.srcs
  held : ∀ c, 0 < e c → c ∈ t.srcs
  count : ∀ c ∈ t.srcs, (t.source c).routeCount.toNat = t.routes.countP (fun a => (t.route a).src = c) + e c
  old : ∀ a ∈ t.routes, a < t.brk
  oldSrcs : ∀ c ∈ t.srcs, c < t.brk
  size : t.slots.length ≤ t.maxRouteSlots

/-- An installed route is the first one of its slot. -/
def Table.InstalledFirst (t : Table) : Prop := ∀ s ∈ t.slots, ∀ a ∈ s, (t.route a).installed → s.head? = some a

/-- The table is in order, but for the counts of the sources. -/
def Table.SoundBut (e : Nat → Nat) (t : Table) : Prop := t.Shaped e ∧ t.InstalledFirst

/-! ## Slots of routes -/

theorem getD_middle : (l1 ++ s :: l2).getD l1.length [] = s := by simp

theorem Table.Shaped.mem_slotRoutes (h : t.Shaped e) :
    a ∈ slotRoutes t pfx plen ↔ a ∈ t.routes ∧ t.key a = prefixKey pfx plen := by
  have hsp := findRouteSlot_splits h.slots pfx plen
  rw [slotRoutes]
  cases hres : findRouteSlot t pfx plen with
  | found i =>
    rw [hres] at hsp
    obtain ⟨l1, s, l2, hsl, rfl, hbelow, hkey, habove⟩ := hsp
    simp only [hsl, getD_middle, Table.routes, flatten_append, flatten_cons, mem_append]
    constructor
    · exact fun ha => ⟨.inr (.inl ha), hkey a ha⟩
    · rintro ⟨ha | ha | ha, hak⟩
      · exact absurd hak (hbelow a ha).ne
      · exact ha
      · exact absurd hak (habove a ha).ne'
  | missing n =>
    rw [hres] at hsp
    obtain ⟨l1, l2, hsl, rfl, hbelow, habove⟩ := hsp
    simp only [not_mem_nil, false_iff, hsl, Table.routes, flatten_append, mem_append, not_and]
    rintro (ha | ha)
    · exact (hbelow a ha).ne
    · exact (habove a ha).ne'

theorem Table.Shaped.found (h : t.Shaped e) (ha : a ∈ t.routes) :
    ∃ l1 s l2, findRouteSlot t (t.src a).pfx (t.src a).plen = .found l1.length ∧
      t.slots = l1 ++ s :: l2 ∧ a ∈ s ∧ (∀ b ∈ l1.flatten, t.key b < t.key a) ∧ (∀ b ∈ s, t.key b = t.key a) ∧
      ∀ b ∈ l2.flatten, t.key a < t.key b := by
  have hmem := h.mem_slotRoutes.2 ⟨ha, rfl⟩
  have hsp := findRouteSlot_splits h.slots (t.src a).pfx (t.src a).plen
  rw [slotRoutes] at hmem
  cases hres : findRouteSlot t (t.src a).pfx (t.src a).plen with
  | missing n =>
    rw [hres] at hmem
    cases hmem
  | found i =>
    rw [hres] at hsp hmem
    obtain ⟨l1, s, l2, hsl, rfl, hkeys⟩ := hsp
    simp only [hsl, getD_middle] at hmem
    exact ⟨l1, s, l2, rfl, hsl, hmem, hkeys⟩

theorem Table.Shaped.slotRoutes_mem (h : t.Shaped e) (hs : slotRoutes t pfx plen ≠ []) :
    slotRoutes t pfx plen ∈ t.slots := by
  have hsp := findRouteSlot_splits h.slots pfx plen
  rw [slotRoutes] at hs ⊢
  cases hres : findRouteSlot t pfx plen with
  | found i =>
    rw [hres] at hsp
    obtain ⟨l1, s, l2, hsl, rfl, -⟩ := hsp
    simp [hsl]
  | missing n =>
    rw [hres] at hs
    exact absurd rfl hs

/-! ## Changes of one object -/

theorem key_congr (hrt : (t'.route a).src = (t.route a).src)
    (hsrc : (t'.source (t.route a).src).frame = (t.src a).frame) : t'.key a = t.key a := by
  simp only [Source.frame, Prod.mk.injEq] at hsrc
  simp [Table.key, hrt, hsrc.1, hsrc.2.1]

theorem Table.Shaped.congr (h : t.Shaped e) {route : Nat → BabelRoute} {source : Nat → Source} {brk : Nat}
    (hrt : ∀ a ∈ t.routes, (route a).place = (t.route a).place)
    (hsrc : ∀ c ∈ t.srcs, (source c).frame = (t.source c).frame) (hbrk : t.brk ≤ brk) :
    { t with route, source, brk }.Shaped e := by
  have hpl : ∀ a ∈ t.routes, (route a).src = (t.route a).src ∧ (route a).neigh = (t.route a).neigh ∧
      (route a).nexthop = (t.route a).nexthop := by
    intro a ha
    have hpl := hrt a ha
    simp only [BabelRoute.place, Prod.mk.injEq] at hpl
    exact hpl
  have hkey : ∀ a ∈ t.routes, { t with route, source, brk }.key a = t.key a := fun a ha =>
    key_congr (hpl a ha).1 (hsrc _ (h.refers a ha))
  refine { h with
    slots := h.slots.congr hkey, distinct := ?_, refers := ?_, count := ?_
    old := fun a ha => (h.old a ha).trans_le hbrk, oldSrcs := fun c hc => (h.oldSrcs c hc).trans_le hbrk }
  · intro a ha b hb
    rw [hkey a ha, hkey b hb, (hpl a ha).2.1, (hpl b hb).2.1, (hpl a ha).2.2, (hpl b hb).2.2]
    exact h.distinct a ha b hb
  · intro a ha
    rw [(hpl a ha).1]
    exact h.refers a ha
  · intro c hc
    have hcnt : (source c).routeCount = (t.source c).routeCount := congrArg (·.2.2) (hsrc c hc)
    have hsame : t.routes.countP (fun a => (route a).src = c) = t.routes.countP fun a => (t.route a).src = c :=
      countP_congr fun a ha => by rw [(hpl a ha).1]
    rw [hcnt, h.count c hc, ← hsame]
    rfl

/-- What a change of a route keeps is the same in all routes. -/
theorem setRoute_same {β : Type} (g : BabelRoute → β) {f : BabelRoute → BabelRoute} (hf : ∀ r, g (f r) = g r)
    (b : Nat) :
    g ((setRoute t a f).route b) = g (t.route b) := by
  change g (update t.route a (f (t.route a)) b) = _
  by_cases hb : b = a
  · rw [hb, update_self, hf]
  · rw [update_of_ne hb]

theorem Table.Shaped.withRoute (h : t.Shaped e) (f : BabelRoute → BabelRoute) (hf : ∀ r, (f r).place = r.place) :
    (setRoute t a f).Shaped e :=
  h.congr (fun b _ => setRoute_same _ hf b) (fun _ _ => rfl) le_rfl

theorem Table.Shaped.withSource (h : t.Shaped e) (f : Source → Source) (hf : ∀ src, (f src).frame = src.frame) :
    (setSource t c f).Shaped e := by
  refine h.congr (fun _ _ => rfl) (fun b _ => ?_) le_rfl
  change (update t.source c (f (t.source c)) b).frame = _
  by_cases hb : b = c
  · rw [hb, update_self, hf]
  · rw [update_of_ne hb]

theorem Table.InstalledFirst.congr (h : t.InstalledFirst) (hsl : t'.slots = t.slots)
    (hrt : ∀ a, (t'.route a).installed → (t.route a).installed) : t'.InstalledFirst := by
  intro s hs a ha hins
  rw [hsl] at hs
  exact h s hs a ha (hrt a hins)

/-! ## The installed route -/

theorem modify_middle (f : List Nat → List Nat) : (l1 ++ s :: l2).modify l1.length f = l1 ++ f s :: l2 := by
  induction l1 with
  | nil => rfl
  | cons d l1 ih => rw [cons_append, length_cons, modify_succ_cons, ih, cons_append]

theorem Table.Shaped.permSlot {s' : List Nat} (h : t.Shaped e) (hsl : t.slots = l1 ++ s :: l2) (hs : s' ~ s) :
    Table.Shaped e { t with slots := l1 ++ s' :: l2 } := by
  have hperm : (l1 ++ s' :: l2).flatten ~ t.routes := by
    rw [Table.routes, hsl, flatten_append, flatten_append, flatten_cons]
    exact (hs.append_right _).append_left _
  have hmem : ∀ a, a ∈ (l1 ++ s' :: l2).flatten ↔ a ∈ t.routes := fun a => hperm.mem_iff
  refine ⟨?_, hperm.nodup_iff.2 h.nodup, fun a => (h.heap a).trans (hmem a).symm, ?_, ?_, h.held, ?_, ?_, h.oldSrcs, ?_⟩
  · have hok := h.slots
    rw [hsl] at hok
    obtain ⟨d, hd⟩ := exists_mem_of_ne_nil s (hok.nonempty s (by simp))
    have hkey : ∀ a ∈ s, t.key a = t.key d := fun a ha => hok.same s (by simp) a ha d hd
    exact hok.replaceSlot hkey (fun a ha => hkey a (hs.mem_iff.1 ha)) (ne_nil_of_mem (hs.mem_iff.2 hd))
  · exact fun a ha b hb => h.distinct a ((hmem a).1 ha) b ((hmem b).1 hb)
  · exact fun a ha => h.refers a ((hmem a).1 ha)
  · exact fun c hc => (h.count c hc).trans (by rw [← hperm.countP_eq]; rfl)
  · exact fun a ha => h.old a ((hmem a).1 ha)
  · have hsize := h.size
    rw [hsl] at hsize
    simpa using hsize

/-- The only installed route of a slot goes to its head. -/
theorem moveToHead_sound (h : t.Shaped e) (ha : a ∈ t.routes)
    (hself : ∀ b ∈ t.routes, t.key b = t.key a → (t.route b).installed → b = a)
    (hoth : ∀ s ∈ t.slots, a ∉ s → ∀ b ∈ s, (t.route b).installed → s.head? = some b) :
    Ends (moveToHead t a) (Table.SoundBut e) := by
  obtain ⟨l1, s, l2, hfound, hsl, has, hbelow, hkey, habove⟩ := h.found ha
  have hperm : (if s.head? = some a then s else a :: s.erase a) ~ s := by
    by_cases hhead : s.head? = some a
    · rw [if_pos hhead]
    · rw [if_neg hhead]
      exact (perm_cons_erase has).symm
  refine ⟨{ t with slots := l1 ++ (if s.head? = some a then s else a :: s.erase a) :: l2 }, ?_,
    h.permSlot hsl hperm, ?_⟩
  · rw [moveToHead, hfound]
    simp [moveInstalledRoute, hsl, modify_middle]
  · intro s' hs' b hb hins
    have hother : s' ∈ l1 ∨ s' ∈ l2 → s'.head? = some b := by
      intro hs'
      refine hoth s' (by rw [hsl, mem_append]; tauto) (fun has' => ?_) b hb hins
      rcases hs' with hs' | hs'
      · exact (hbelow a (mem_flatten.2 ⟨s', hs', has'⟩)).false
      · exact (habove a (mem_flatten.2 ⟨s', hs', has'⟩)).false
    rcases mem_append.1 hs' with hs' | hs'
    · exact hother (.inl hs')
    rcases mem_cons.1 hs' with rfl | hs'
    · have hbs : b ∈ s := hperm.mem_iff.1 hb
      obtain rfl := hself b (by simp [Table.routes, hsl, hbs]) (hkey b hbs) hins
      split_ifs with hhead
      · rw [hhead]
      · rw [head?_cons]
    · exact hother (.inr hs')

theorem setInstalled_installed (x : Bool) : ((setInstalled t a x).route b).installed =
    if b = a then x else (t.route b).installed := by
  change (update t.route a _ b).installed = _
  by_cases hb : b = a
  · rw [hb, update_self, if_pos rfl]
  · rw [update_of_ne hb, if_neg hb]

theorem setInstalled_shaped (h : t.Shaped e) (x : Bool) : (setInstalled t a x).Shaped e := h.withRoute _ fun _ => rfl

theorem setInstalled_key (x : Bool) : (setInstalled t a x).key b = t.key b := by
  refine key_congr (setRoute_same (·.src) (fun r => ?_) b) rfl
  rfl

/-- The installed routes of a prefix are the head of its slot. -/
theorem Table.SoundBut.head_of_installed (h : t.SoundBut e) (hb : b ∈ slotRoutes t pfx plen)
    (hins : (t.route b).installed) :
    (slotRoutes t pfx plen).head? = some b :=
  h.2 _ (h.1.slotRoutes_mem (ne_nil_of_mem hb)) b hb hins

theorem uninstallRoute_sound (h : t.SoundBut e) : (uninstallRoute t a).SoundBut e := by
  refine ⟨setInstalled_shaped h.1 false, h.2.congr rfl fun b hb => ?_⟩
  rw [uninstallRoute, setInstalled_installed] at hb
  by_cases hba : b = a
  · rw [if_pos hba] at hb
    cases hb
  · rwa [if_neg hba] at hb

/-- Where no other route of the prefix is installed, a route may be. -/
theorem install_sound (h : t.Shaped e) (ha : a ∈ t.routes)
    (hself : ∀ b ∈ t.routes, t.key b = t.key a → b ≠ a → (t.route b).installed = false)
    (hoth : ∀ s ∈ t.slots, a ∉ s → ∀ b ∈ s, (t.route b).installed → s.head? = some b) :
    Ends (moveToHead (setInstalled t a true) a) (Table.SoundBut e) := by
  refine moveToHead_sound (setInstalled_shaped h true) ha (fun b hb hkey hins => ?_) fun s hs has b hb hins => ?_
  · by_contra hne
    rw [setInstalled_installed, if_neg hne] at hins
    rw [setInstalled_key, setInstalled_key] at hkey
    rw [hself b hb hkey hne] at hins
    cases hins
  · have hne : b ≠ a := fun hba => has (hba ▸ hb)
    rw [setInstalled_installed, if_neg hne] at hins
    exact hoth s hs has b hb hins

section
variable (h : t.SoundBut e) (ha : a ∈ t.routes)
include h ha

theorem installRoute_sound : Ends (installRoute env t a) (Table.SoundBut e) := by
  refine .ite (fun _ => .some h) fun _ => ?_
  have hmem := h.1.mem_slotRoutes.2 ⟨ha, (rfl : t.key a = _)⟩
  dsimp only
  cases hslot : slotRoutes t (t.src a).pfx (t.src a).plen with
  | nil =>
    rw [hslot] at hmem
    cases hmem
  | cons d rest =>
    refine .ite (fun _ => .some h) fun hd => .ite (fun _ => ?_) fun _ => .some h
    refine install_sound h.1 ha (fun b hb hkey hne => ?_) fun s hs _ => h.2 s hs
    have hbs := h.1.mem_slotRoutes.2 ⟨hb, hkey⟩
    by_contra htrue
    have hhead := h.head_of_installed hbs (by simpa using htrue)
    rw [hslot] at hhead
    obtain rfl : d = b := by simpa using hhead
    exact hd ⟨hne, by simpa using htrue⟩

theorem switchRoutes_sound : Ends (switchRoutes env t (findInstalledRoute t (t.src a).pfx (t.src a).plen) a)
      (Table.SoundBut e) := by
  cases hold : findInstalledRoute t (t.src a).pfx (t.src a).plen with
  | none => exact installRoute_sound h ha
  | some d =>
    obtain ⟨hhead, -⟩ := Option.filter_eq_some_iff.1 hold
    refine .ite (fun _ => .some h) fun _ => .ite (fun _ => ?_) fun _ => .some h
    have hd' := uninstallRoute_sound (a := d) h
    refine install_sound hd'.1 ha (fun b hb hkey hne => ?_) fun s hs _ => hd'.2 s hs
    rw [setInstalled_installed]
    by_cases hbd : b = d
    · rw [if_pos hbd]
    rw [if_neg hbd]
    rw [setInstalled_key, setInstalled_key] at hkey
    have hbs := h.1.mem_slotRoutes.2 ⟨hb, hkey⟩
    by_contra htrue
    have hheadb := h.head_of_installed hbs (by simpa using htrue)
    rw [hheadb] at hhead
    exact hbd (by simpa using hhead)

theorem considerRoute_sound : Ends (considerRoute env t a) (Table.SoundBut e) := by
  refine .ite (fun _ => .some h) fun _ => .ite (fun _ => .some h) fun _ => .ite (fun _ => .some h) fun _ => ?_
  exact .ite (fun _ => switchRoutes_sound h ha) fun _ => .some h

end

theorem foldl_betterRoute_mem : ∀ {rest : List Nat} {d : Nat}, rest.foldl (betterRoute t) d ∈ d :: rest
  | [], d => mem_cons_self
  | r :: rest, d => by
    have hmem : rest.foldl (betterRoute t) (betterRoute t d r) ∈ betterRoute t d r :: rest := foldl_betterRoute_mem
    have hpick : betterRoute t d r = r ∨ betterRoute t d r = d := by
      exact ite_eq_or_eq ..
    rw [foldl_cons]
    rcases mem_cons.1 hmem with heq | hmem
    · rw [heq]
      rcases hpick with hr | hd
      · simp [hr]
      · simp [hd]
    · simp [hmem]

theorem findBestRoute_mem (h : t.Shaped e) (hb : findBestRoute t pfx plen = some b) : b ∈ t.routes := by
  rw [findBestRoute] at hb
  cases hslot : slotRoutes t pfx plen with
  | nil =>
    rw [hslot] at hb
    cases hb
  | cons d rest =>
    rw [hslot] at hb
    cases hb
    exact (h.mem_slotRoutes.1 (hslot ▸ foldl_betterRoute_mem)).1

theorem routeLost_sound (h : t.SoundBut e) : Ends (routeLost env t pfx plen) (Table.SoundBut e) := by
  unfold routeLost
  cases hbest : findBestRoute t pfx plen with
  | none => exact .some h
  | some b => exact considerRoute_sound h (findBestRoute_mem h.1 hbest)

theorem routeChanged_sound (h : t.SoundBut e) (ha : a ∈ t.routes) (oldmetric : Nat) :
    Ends (routeChanged env t a oldmetric) (Table.SoundBut e) := by
  refine .ite (fun _ => .ite (fun _ => ?_) fun _ => .some h) fun _ => considerRoute_sound h ha
  cases hbest : findBestRoute t (t.src a).pfx (t.src a).plen with
  | none => exact .some h
  | some b => exact .ite (fun _ => considerRoute_sound h (findBestRoute_mem h.1 hbest)) fun _ => .some h

end Tarpan.Babeld
