/-
Routes that are put into the Babel route table and freed, and the references to their sources: while a source is
retained for a route that is not in the table, it counts one more than there are routes.
-/
import Tarpan.Babeld.Sound

namespace Tarpan.Babeld

open List Function Table BabelRoute

variable {t t' : Table} {env : Env} {pfx : BitVec 128} {plen : UInt8} {a b c i n : Nat} {e e' : Nat → Nat}
  {l1 l2 : List (List Nat)} {s : List Nat} {u : Update}

/-! ## References to sources -/

/-- One reference more to a source. -/
def plus (e : Nat → Nat) (c : Nat) : Nat → Nat := fun d => e d + if c = d then 1 else 0

theorem plus_self (e : Nat → Nat) (c : Nat) : plus e c c = e c + 1 := by rw [plus, if_pos rfl]
theorem plus_of_ne {d : Nat} (h : c ≠ d) : plus e c d = e d := by rw [plus, if_neg h, Nat.add_zero]
theorem plus_pos (e : Nat → Nat) (c : Nat) : 0 < plus e c c := plus_self e c ▸ Nat.succ_pos _

theorem held_plus {l : List Nat} (h : ∀ d, 0 < e d → d ∈ l) (hc : c ∈ l) : ∀ d, 0 < plus e c d → d ∈ l := by
  intro d hd
  by_cases hcd : c = d
  · exact hcd ▸ hc
  · exact h d (by rwa [plus_of_ne hcd] at hd)

theorem held_of_plus {l : List Nat} (h : ∀ d, 0 < plus e c d → d ∈ l) : ∀ d, 0 < e d → d ∈ l :=
  fun d hd => h d (hd.trans_le (Nat.le_add_right ..))

theorem Table.Shaped.recount (h : t.Shaped e) (f : Source → Source)
    (hf : ∀ src, (f src).pfx = src.pfx ∧ (f src).plen = src.plen) (hheld : ∀ c', 0 < e' c' → c' ∈ t.srcs)
    (hcnt : ∀ c' ∈ t.srcs, ((setSource t c f).source c').routeCount.toNat =
      t.routes.countP (fun a => (t.route a).src = c') + e' c') : (setSource t c f).Shaped e' := by
  have hkey : (setSource t c f).key = t.key := by
    funext a
    change prefixKey (update t.source c (f (t.source c)) (t.route a).src).pfx
      (update t.source c (f (t.source c)) (t.route a).src).plen = _
    by_cases hc : (t.route a).src = c
    · rw [hc, update_self, (hf _).1, (hf _).2, ← hc]
      rfl
    · rw [update_of_ne hc]
      rfl
  refine ⟨?_, h.nodup, h.heap, ?_, h.refers, hheld, hcnt, h.old, h.oldSrcs, h.size⟩
  · rw [hkey]
    exact h.slots
  · rw [hkey]
    exact h.distinct

/-- The counts of the sources fix how many references there are besides the routes. -/
theorem Table.Shaped.extra_eq {e' : Nat → Nat} (h : t.Shaped e) (h' : t.Shaped e') (hc : c ∈ t.srcs) : e c = e' c :=
  Nat.add_left_cancel ((h.count c hc).symm.trans (h'.count c hc))

theorem setSource_source (f : Source → Source) : (setSource t c f).source b =
    if b = c then f (t.source c) else t.source b := update_apply ..

theorem Table.Shaped.retain (h : t.Shaped e) (hc : c ∈ t.srcs) (hret : retainSource t c = some t') :
    t'.Shaped (plus e c) := by
  rw [retainSource] at hret
  by_cases hbd : (t.source c).routeCount < 0xFFFF
  · rw [if_pos hbd] at hret
    cases hret
    refine h.recount _ (fun _ => ⟨rfl, rfl⟩) (held_plus h.held hc) fun c' hc' => ?_
    have hcnt := h.count c' hc'
    rw [setSource_source]
    by_cases hcc : c' = c
    · subst hcc
      have hlt := UInt16.lt_iff_toNat_lt.1 hbd
      have hsucc : ((t.source c').routeCount + 1).toNat = (t.source c').routeCount.toNat + 1 := by
        exact Nat.mod_eq_of_lt (Nat.succ_lt_succ hlt)
      rw [if_pos rfl, plus_self, hsucc, hcnt, Nat.add_assoc]
    · rw [if_neg hcc, plus_of_ne (Ne.symm hcc), hcnt]
  · rw [if_neg hbd] at hret
    cases hret

theorem Table.Shaped.release (h : t.Shaped (plus e c)) : ∃ t', releaseSource t c = some t' ∧ t'.Shaped e ∧
    t'.slots = t.slots ∧ t'.route = t.route := by
  have hcnt := h.count c (h.held c (plus_pos e c))
  rw [plus_self] at hcnt
  have hpos : 0 < (t.source c).routeCount := by
    rw [UInt16.lt_iff_toNat_lt]
    exact hcnt ▸ Nat.succ_pos _
  rw [releaseSource, if_pos hpos]
  refine ⟨_, rfl, h.recount _ (fun _ => ⟨rfl, rfl⟩) (held_of_plus h.held) fun c' hc' => ?_, rfl, rfl⟩
  rw [setSource_source]
  by_cases hcc : c' = c
  · subst hcc
    rw [if_pos rfl, UInt16.toNat_sub_of_le _ _
      (by rw [UInt16.le_iff_toNat_le]; exact hcnt ▸ Nat.succ_le_succ (Nat.zero_le _)),
      hcnt]
    rfl
  · have hcnt' := h.count c' hc'
    rw [plus_of_ne (Ne.symm hcc)] at hcnt'
    rw [if_neg hcc, hcnt']

theorem countP_src (ha : a ∈ t.routes) (c : Nat) :
    t.routes.countP (fun b => (t.route b).src = c) =
      (t.routes.erase a).countP (fun b => (t.route b).src = c) + if (t.route a).src = c then 1 else 0 := by
  rw [(perm_cons_erase ha).countP_eq, countP_cons]
  simp

/-- A route refers to another source, which has been retained for it. -/
theorem Table.Shaped.changeSrc (h : t.Shaped (plus e c)) (ha : a ∈ t.routes) (f : BabelRoute → BabelRoute)
    (hf : ∀ r, (f r).place = (c, r.neigh, r.nexthop)) (hkey : prefixKey (t.source c).pfx (t.source c).plen = t.key a) :
    (setRoute t a f).Shaped (plus e (t.route a).src) := by
  have hpl : ∀ r, (f r).src = c ∧ (f r).neigh = r.neigh ∧ (f r).nexthop = r.nexthop := by
    intro r
    simpa only [place, Prod.mk.injEq] using hf r
  have hrt : ∀ b, (setRoute t a f).route b = if b = a then f (t.route a) else t.route b :=
    fun _ => update_apply ..
  have hkeys : (setRoute t a f).key = t.key := by
    funext b
    rw [key, hrt]
    split_ifs with hb
    · rw [(hpl _).1, hb]
      exact hkey
    · rfl
  have hnode : ∀ b, ((setRoute t a f).route b).neigh = (t.route b).neigh ∧
      ((setRoute t a f).route b).nexthop = (t.route b).nexthop := by
    intro b
    rw [hrt]
    split_ifs with hb
    · rw [hb]
      exact (hpl _).2
    · exact ⟨rfl, rfl⟩
  refine ⟨?_, h.nodup, h.heap, ?_, fun b hb => ?_, ?_, fun c' hc' => ?_, h.old, h.oldSrcs, h.size⟩
  · rw [hkeys]
    exact h.slots
  · intro b hb d hd
    rw [hkeys, (hnode b).1, (hnode d).1, (hnode b).2, (hnode d).2]
    exact h.distinct b hb d hd
  · rw [hrt]
    split_ifs with hba
    · rw [(hpl _).1]
      exact h.held c (plus_pos e c)
    · exact h.refers b hb
  · exact held_plus (held_of_plus h.held) (h.refers a ha)
  · have hcnt := h.count c' hc'
    have hsp := countP_src ha c'
    have hsp' := countP_src (t := setRoute t a f) ha c'
    have hrest : ((setRoute t a f).routes.erase a).countP (fun b => ((setRoute t a f).route b).src = c') =
        (t.routes.erase a).countP fun b => (t.route b).src = c' := by
      refine countP_congr fun b hb => ?_
      have hba : b ≠ a := fun hba => h.nodup.not_mem_erase (hba ▸ hb)
      rw [hrt, if_neg hba]
    rw [hrest, hrt, if_pos rfl, (hpl _).1] at hsp'
    change (t.source c').routeCount.toNat = _
    rw [plus] at hcnt ⊢
    omega

/-! ## New routes -/

/-- A route has been allocated for the update, and refers to the source `c`. It is in no slot yet. -/
structure Allocated (t : Table) (u : Update) (c : Nat) (t' : Table) : Prop where
  slots : t'.slots = t.slots
  route : ∀ b ≠ t.brk, t'.route b = t.route b
  place : (t'.route t.brk).place = (c, u.neigh, u.nexthop)
  installed : (t'.route t.brk).installed = false
  source : t'.source = t.source
  heap : t'.heap = insert t.brk t.heap
  srcs : t'.srcs = t.srcs
  brk : t'.brk = t.brk + 1

theorem newRoute_allocated (env : Env) (t : Table) (u : Update) (c : Nat) : Allocated t u c (newRoute env t u c) := by
  have hnew : (newRoute env t u c).route t.brk = _ := update_self ..
  exact ⟨rfl, fun b hb => update_of_ne hb .., by rw [hnew]; rfl, by rw [hnew], rfl, rfl, rfl, rfl⟩

/-- The array is full and cannot grow. -/
def Stuck (env : Env) (t : Table) (pfx : BitVec 128) (plen : UInt8) : Prop :=
  slotRoutes t pfx plen = [] ∧ t.maxRouteSlots ≤ t.slots.length ∧ env.realloc = false

/-- The array after it was made larger. -/
def grown (env : Env) (t : Table) : Table :=
  if t.maxRouteSlots ≤ t.slots.length ∧ env.realloc then
    { t with maxRouteSlots := if t.maxRouteSlots < 1 then 8 else 2 * t.maxRouteSlots }
  else t

theorem Allocated.grown (h : Allocated t u c t') (env : Env) : Allocated t u c (grown env t') := by
  rw [Babeld.grown]
  split
  · exact { h with }
  · exact h

theorem grown_full (hsize : t.slots.length ≤ t.maxRouteSlots) :
    (grown env t).maxRouteSlots ≤ t.slots.length ↔ t.maxRouteSlots ≤ t.slots.length ∧ env.realloc = false := by
  rw [grown]
  by_cases h : t.maxRouteSlots ≤ t.slots.length ∧ env.realloc
  · rw [if_pos h]
    simp only [h.2, Bool.true_eq_false, and_false, iff_false]
    split <;> omega
  · rw [if_neg h]
    simp only [not_and, Bool.not_eq_true] at h
    exact ⟨fun hfull => ⟨hfull, h hfull⟩, And.left⟩

theorem insertRoute_missing (env : Env) (h : findRouteSlot t (t.src a).pfx (t.src a).plen = .missing n) :
    insertRoute env t a =
      if (grown env t).maxRouteSlots ≤ (grown env t).slots.length then (grown env t, false)
      else ({ grown env t with slots := (grown env t).slots.take n ++ [a] :: (grown env t).slots.drop n }, true) := by
  rw [insertRoute, h]
  rfl

theorem insertRoute_found (env : Env) (h : findRouteSlot t (t.src a).pfx (t.src a).plen = .found i) :
    insertRoute env t a = ({ t with slots := t.slots.modify i (· ++ [a]) }, true) := by
  rw [insertRoute, h]

section
variable (hslots : t'.slots = t.slots) (hkey : ∀ a ∈ t.routes, t'.key a = t.key a)
include hslots hkey

theorem findRouteSlot_congr : findRouteSlot t' pfx plen = findRouteSlot t pfx plen := by
  have hcmp : slotCompare t' pfx plen = slotCompare t pfx plen := by
    funext m
    rw [slotCompare, slotCompare, hslots]
    cases hm : (t.slots[m]?).bind List.head? with
    | none => rfl
    | some a =>
      obtain ⟨s, hs, ha⟩ := Option.bind_eq_some_iff.1 hm
      have hmem : a ∈ t.routes := mem_flatten.2 ⟨s, mem_of_getElem? hs, mem_of_mem_head? ha⟩
      obtain ⟨hpfx, hplen⟩ := prefixKey_inj.1 (hkey a hmem)
      simp [routeCompare, hpfx, hplen]
  rw [findRouteSlot, findRouteSlot, hcmp, hslots]

theorem slotRoutes_congr : slotRoutes t' pfx plen = slotRoutes t pfx plen := by
  rw [slotRoutes, slotRoutes, findRouteSlot_congr hslots hkey, hslots]

end

theorem Table.Shaped.slotRoutes_eq_nil (h : t.Shaped e) :
    slotRoutes t pfx plen = [] ↔ ∃ n, findRouteSlot t pfx plen = .missing n := by
  have hsp := findRouteSlot_splits h.slots pfx plen
  rw [slotRoutes]
  cases hres : findRouteSlot t pfx plen with
  | missing n => simp
  | found i =>
    rw [hres] at hsp
    obtain ⟨l1, s, l2, hslots, rfl, -⟩ := hsp
    have hne : s ≠ [] := h.slots.nonempty s (by simp [hslots])
    simpa [hslots] using hne

theorem newRoute_freed (h : t.SoundBut e) (env : Env) (u : Update) (c : Nat) :
    SoundBut e { newRoute env t u c with heap := (newRoute env t u c).heap.erase t.brk } := by
  have halloc := newRoute_allocated env t u c
  constructor
  · have hheap : (newRoute env t u c).heap.erase t.brk = t.heap :=
      Finset.erase_insert fun hbrk => (h.1.old _ ((h.1.heap _).1 hbrk)).false
    rw [hheap]
    refine h.1.congr (fun b hb => ?_) (fun _ _ => rfl) (Nat.le_succ _)
    exact congrArg BabelRoute.place (halloc.route b (h.1.old b hb).ne)
  · refine h.2.congr rfl fun b hb => ?_
    by_cases hbrk : b = t.brk
    · rw [hbrk, halloc.installed] at hb
      cases hb
    · rwa [halloc.route b hbrk] at hb

/-- The update is for another route than those of the table. -/
def IsNew (t : Table) (u : Update) : Prop := ∀ b ∈ t.routes, t.key b = prefixKey u.pfx u.plen →
  (t.route b).neigh = u.neigh → (t.route b).nexthop ≠ u.nexthop

namespace Allocated

variable (halloc : Allocated t u c t')
include halloc

theorem fields : (t'.route t.brk).src = c ∧ (t'.route t.brk).neigh = u.neigh ∧
    (t'.route t.brk).nexthop = u.nexthop := by
  have hpl := halloc.place
  simp only [BabelRoute.place, Prod.mk.injEq] at hpl
  exact hpl

theorem key_eq (h : t.Shaped e) : ∀ b ∈ t.routes, t'.key b = t.key b := by
  intro b hb
  rw [key, halloc.route b (h.old b hb).ne, halloc.source]
  rfl

section
variable (hc : (t.source c).pfx = u.pfx ∧ (t.source c).plen = u.plen)
include hc

theorem key_new : t'.key t.brk = prefixKey u.pfx u.plen := by
  rw [key, halloc.fields.1, halloc.source, hc.1, hc.2]

/-- The route is put into a slot, and refers to the source that was retained for it. -/
theorem inserted {slots : List (List Nat)} (h : t.Shaped (plus e c)) (hnew : IsNew t u) (hslots : SlotsOk t'.key slots)
    (hperm : slots.flatten ~ t.brk :: t.routes) (hsize : slots.length ≤ t'.maxRouteSlots) :
    Shaped e { t' with slots } := by
  have hmem : ∀ b, b ∈ slots.flatten ↔ b = t.brk ∨ b ∈ t.routes := fun b => hperm.mem_iff.trans mem_cons
  have hrt : ∀ b ∈ t.routes, t'.route b = t.route b := fun b hb => halloc.route b (h.old b hb).ne
  have hkey := halloc.key_eq h
  have hother : ∀ b ∈ t.routes, t'.key b = t'.key t.brk → (t'.route b).neigh = (t'.route t.brk).neigh →
      (t'.route b).nexthop ≠ (t'.route t.brk).nexthop := by
    intro b hb
    rw [hkey b hb, hrt b hb, halloc.key_new hc, halloc.fields.2.1, halloc.fields.2.2]
    exact hnew b hb
  have hnotMem : t.brk ∉ t.routes := fun hmem => (h.old _ hmem).false
  refine ⟨hslots, hperm.nodup_iff.2 (nodup_cons.2 ⟨hnotMem, h.nodup⟩), fun b => ?_, ?_, fun b hb => ?_, ?_,
    fun c' hc' => ?_, fun b hb => ?_, fun c' hc' => ?_, hsize⟩
  · change b ∈ t'.heap ↔ b ∈ slots.flatten
    rw [halloc.heap, Finset.mem_insert, h.heap, hmem]
  · intro b hb d hd hk hn hx
    rcases (hmem b).1 hb with rfl | hb <;> rcases (hmem d).1 hd with rfl | hd
    · rfl
    · exact absurd hx.symm (hother d hd hk.symm hn.symm)
    · exact absurd hx (hother b hb hk hn)
    · refine h.distinct b hb d hd ?_ ?_ ?_
      · rwa [← hkey b hb, ← hkey d hd]
      · rwa [← hrt b hb, ← hrt d hd]
      · rwa [← hrt b hb, ← hrt d hd]
  · change (t'.route b).src ∈ t'.srcs
    rw [halloc.srcs]
    rcases (hmem b).1 hb with rfl | hb
    · rw [halloc.fields.1]
      exact h.held c (plus_pos e c)
    · rw [hrt b hb]
      exact h.refers b hb
  · change ∀ d, 0 < e d → d ∈ t'.srcs
    rw [halloc.srcs]
    exact held_of_plus h.held
  · replace hc' : c' ∈ t.srcs := halloc.srcs ▸ hc'
    have hcnt := h.count c' hc'
    have hrest : t.routes.countP (fun a => (t'.route a).src = c') = t.routes.countP fun a => (t.route a).src = c' :=
      countP_congr fun a ha => by rw [hrt a ha]
    change (t'.source c').routeCount.toNat = slots.flatten.countP (fun a => (t'.route a).src = c') + e c'
    rw [hperm.countP_eq, countP_cons, hrest, halloc.fields.1, halloc.source, hcnt, plus]
    simp only [decide_eq_true_eq]
    omega
  · change b < t'.brk
    rw [halloc.brk]
    rcases (hmem b).1 hb with rfl | hb
    · exact Nat.lt_succ_self _
    · exact (h.old b hb).trans (Nat.lt_succ_self _)
  · change c' < t'.brk
    rw [halloc.brk]
    exact (h.oldSrcs c' (halloc.srcs ▸ hc')).trans (Nat.lt_succ_self _)

/-- The route goes behind those of its slot, if there are any. -/
theorem sound (h : t.SoundBut (plus e c)) (hnew : IsNew t u)
    (hslots : t.slots = l1 ++ l2 ∧ s = [] ∨ t.slots = l1 ++ s :: l2)
    (hbelow : ∀ b ∈ l1.flatten, t.key b < prefixKey u.pfx u.plen) (hkey : ∀ b ∈ s, t.key b = prefixKey u.pfx u.plen)
    (habove : ∀ b ∈ l2.flatten, prefixKey u.pfx u.plen < t.key b) (hsize : (l1 ++ l2).length < t'.maxRouteSlots) :
    SoundBut e { t' with slots := l1 ++ (s ++ [t.brk]) :: l2 } ∧ t.brk ∈ (l1 ++ (s ++ [t.brk]) :: l2).flatten := by
  have hrts : t.routes = l1.flatten ++ (s ++ l2.flatten) := by
    rcases hslots with ⟨hslots, rfl⟩ | hslots <;> simp [routes, hslots]
  have hold : SlotsOk t.key (l1 ++ l2) := by
    rcases hslots with ⟨hslots, -⟩ | hslots
    · exact hslots ▸ h.1.slots
    · exact (slotsOk_middle.1 (hslots ▸ h.1.slots)).1
  have hin : ∀ x, x ∈ l1 ++ l2 ∨ x = s ∧ s ≠ [] → x ∈ t.slots := by
    rintro x hx
    rcases hslots with ⟨hslots, rfl⟩ | hslots
    · simpa [hslots] using hx
    · simp only [hslots, mem_append, mem_cons] at hx ⊢
      tauto
  have hsame := halloc.key_eq h.1
  have hlast : ∀ b ∈ s ++ [t.brk], t'.key b = prefixKey u.pfx u.plen := by
    intro b hb
    rcases mem_append.1 hb with hb | hb
    · rw [hsame b (by simp [hrts, hb]), hkey b hb]
    · rw [mem_singleton.1 hb, halloc.key_new hc]
  have hok : SlotsOk t'.key (l1 ++ (s ++ [t.brk]) :: l2) := by
    refine slotsOk_middle.2 ⟨hold.congr fun b hb => hsame b ?_, by simp, ?_, fun b hb d hd => ?_, fun d hd b hb => ?_⟩
    · rw [hrts]
      simp only [flatten_append, mem_append] at hb ⊢
      tauto
    · intro b hb d hd
      rw [hlast b hb, hlast d hd]
    · rw [hlast d hd, hsame b (by simp [hrts, hb])]
      exact hbelow b hb
    · rw [hlast d hd, hsame b (by simp [hrts, hb])]
      exact habove b hb
  have hperm : (l1 ++ (s ++ [t.brk]) :: l2).flatten ~ t.brk :: t.routes := by
    rw [hrts, flatten_append, flatten_cons, append_assoc, singleton_append]
    exact (perm_middle.append_left _).trans perm_middle
  refine ⟨⟨halloc.inserted hc h.1 hnew hok hperm ?_, fun x hx b hb hins => ?_⟩, hperm.mem_iff.2 mem_cons_self⟩
  · simp only [length_append, length_cons] at hsize ⊢
    omega
  -- the new route is not installed, and the others are where they were
  have hne : b ≠ t.brk := by
    rintro rfl
    exact Bool.false_ne_true (halloc.installed.symm.trans hins)
  have hinst : (t.route b).installed := halloc.route b hne ▸ hins
  rcases mem_append.1 hx with hx | hx
  · exact h.2 x (hin x (.inl (mem_append_left _ hx))) b hb hinst
  rcases mem_cons.1 hx with rfl | hx
  · have hbs : b ∈ s := (mem_append.1 hb).resolve_right fun hb => hne (mem_singleton.1 hb)
    rw [head?_append, h.2 s (hin s (.inr ⟨rfl, ne_nil_of_mem hbs⟩)) b hbs hinst]
    rfl
  · exact h.2 x (hin x (.inl (mem_append_right _ hx))) b hb hinst

end

end Allocated

/-- A new route is put into the table, unless the array is full and cannot grow. -/
theorem insertRoute_sound (env : Env) (h : t.SoundBut (plus e c))
    (hc : (t.source c).pfx = u.pfx ∧ (t.source c).plen = u.plen) (hnew : IsNew t u) :
    (Stuck env t u.pfx u.plen → insertRoute env (newRoute env t u c) t.brk = (newRoute env t u c, false)) ∧
    (¬Stuck env t u.pfx u.plen → ∃ t', insertRoute env (newRoute env t u c) t.brk = (t', true) ∧ t'.SoundBut e ∧
      t.brk ∈ t'.routes) := by
  have halloc := newRoute_allocated env t u c
  have hmax : (newRoute env t u c).maxRouteSlots = t.maxRouteSlots := rfl
  generalize newRoute env t u c = t1 at halloc hmax ⊢
  have hfind : findRouteSlot t1 (t1.src t.brk).pfx (t1.src t.brk).plen = findRouteSlot t u.pfx u.plen := by
    rw [Table.src, halloc.fields.1, halloc.source, hc.1, hc.2, findRouteSlot_congr halloc.slots (halloc.key_eq h.1)]
  have hsp := findRouteSlot_splits h.1.slots u.pfx u.plen
  have hslotsNil : slotRoutes t u.pfx u.plen = [] ↔ _ := h.1.slotRoutes_eq_nil
  have hsize := h.1.size
  cases hres : findRouteSlot t u.pfx u.plen with
  | missing n =>
    rw [hres] at hsp
    obtain ⟨l1, l2, hslots, rfl, hbelow, habove⟩ := hsp
    rw [insertRoute_missing env (hfind.trans hres), (halloc.grown env).slots]
    have hstuck : Stuck env t u.pfx u.plen ↔ (grown env t1).maxRouteSlots ≤ t.slots.length := by
      rw [← halloc.slots, grown_full (by rw [halloc.slots, hmax]; exact hsize), halloc.slots, hmax, Stuck,
        hslotsNil, hres]
      exact and_iff_right ⟨_, rfl⟩
    constructor
    · intro hs
      rw [if_pos (hstuck.1 hs), grown, if_neg]
      exact fun hgrow => by rw [hs.2.2] at hgrow; exact absurd hgrow.2 Bool.false_ne_true
    · intro hs
      have hfull := mt hstuck.2 hs
      rw [if_neg hfull, hslots, take_left, drop_left]
      exact ⟨_, rfl, (halloc.grown env).sound hc h hnew (.inl ⟨hslots, rfl⟩) hbelow nofun habove
        (by rw [hslots] at hfull; omega)⟩
  | found i =>
    rw [hres] at hsp
    obtain ⟨l1, s, l2, hslots, rfl, hbelow, hkey, habove⟩ := hsp
    constructor
    · intro hs
      obtain ⟨n, hn⟩ := hslotsNil.1 hs.1
      rw [hres] at hn
      cases hn
    · intro _
      rw [insertRoute_found env (hfind.trans hres), halloc.slots, hslots, modify_middle]
      refine ⟨_, rfl, halloc.sound hc h hnew (.inr hslots) hbelow hkey habove ?_⟩
      rw [hslots, ← hmax] at hsize
      simp only [length_append, length_cons] at hsize ⊢
      omega

/-! ## Freed routes -/

/-- A route is not in the table any more, and its source not yet released. -/
theorem Table.Shaped.removed {slots : List (List Nat)} {max : Nat} (h : t.Shaped e) (ha : a ∈ t.routes)
    (hperm : t.routes ~ a :: slots.flatten) (hslots : SlotsOk t.key slots) (hsize : slots.length ≤ max) :
    Shaped (plus e (t.route a).src) { t with slots, heap := t.heap.erase a, maxRouteSlots := max } := by
  have hnd := hperm.nodup_iff.1 h.nodup
  have hmem : ∀ b ∈ slots.flatten, b ∈ t.routes := fun b hb => hperm.mem_iff.2 (mem_cons_of_mem _ hb)
  refine ⟨hslots, (nodup_cons.1 hnd).2, fun b => ?_, fun b hb d hd => h.distinct b (hmem b hb) d (hmem d hd),
    fun b hb => h.refers b (hmem b hb), held_plus h.held (h.refers a ha), fun c hc => ?_,
    fun b hb => h.old b (hmem b hb), h.oldSrcs, hsize⟩
  · change b ∈ t.heap.erase a ↔ b ∈ slots.flatten
    rw [Finset.mem_erase, h.heap, hperm.mem_iff, mem_cons]
    constructor
    · rintro ⟨hne, rfl | hb⟩
      · exact absurd rfl hne
      · exact hb
    · exact fun hb => ⟨fun hba => (nodup_cons.1 hnd).1 (hba ▸ hb), .inr hb⟩
  · refine (h.count c hc).trans ?_
    rw [hperm.countP_eq, countP_cons, plus]
    simp only [decide_eq_true_eq]
    change _ = slots.flatten.countP _ + _
    omega

/-- What is left of a slot. -/
def restSlot (s : List Nat) (a : Nat) : List (List Nat) := if s.erase a = [] then [] else [s.erase a]

theorem removeFromSlot_middle : removeFromSlot (l1 ++ s :: l2) l1.length a = l1 ++ (restSlot s a ++ l2) := by
  rw [removeFromSlot, getD_middle, modify_middle, eraseIdx_append_of_length_le (le_refl _), Nat.sub_self,
    eraseIdx_cons_zero,
    restSlot]
  split <;> rfl

theorem length_le_shrunkSlots {m len : Nat} (h : len ≤ m) : len ≤ shrunkSlots env m len := by
  rw [shrunkSlots]
  by_cases hzero : len = 0
  · rw [if_pos hzero, hzero]
  rw [if_neg hzero]
  split
  · omega
  · exact h

theorem perm_restSlot (ha : a ∈ s) : (l1 ++ s :: l2).flatten ~ a :: (l1 ++ (restSlot s a ++ l2)).flatten := by
  have hflat : (restSlot s a).flatten = s.erase a := by
    rw [restSlot]
    split_ifs with hnil
    · rw [hnil, flatten_nil]
    · rw [flatten_singleton]
  rw [flatten_append, flatten_append, flatten_append, hflat]
  exact (((perm_cons_erase ha).append_right _).append_left _).trans perm_middle

theorem freeRoute_sound (env : Env) (h : t.SoundBut e) (hslots : t.slots = l1 ++ s :: l2) (ha : a ∈ s)
    (hins : (t.route a).installed = false) : (freeRoute env t a l1.length).SoundBut (plus e (t.route a).src) := by
  have hfree : removeFromSlot t.slots l1.length a = l1 ++ (restSlot s a ++ l2) := by rw [hslots, removeFromSlot_middle]
  have hlength : (l1 ++ (restSlot s a ++ l2)).length ≤ t.maxRouteSlots := by
    refine le_trans ?_ h.1.size
    rw [hslots, restSlot]
    split <;> simp
  have hok := h.1.slots
  rw [hslots] at hok
  unfold freeRoute
  dsimp only
  rw [hfree]
  constructor
  · refine h.1.removed (by simp [routes, hslots, ha]) ?_ ?_ ?_
    · rw [routes, hslots]
      exact perm_restSlot ha
    · rw [restSlot]
      split
      · exact (slotsOk_middle.1 hok).1
      · have hkey : ∀ b ∈ s, t.key b = t.key a := fun b hb => hok.same s (by simp) b hb a ha
        exact hok.replaceSlot hkey (fun b hb => hkey b (mem_of_mem_erase hb)) ‹_›
    · split
      · exact length_le_shrunkSlots hlength
      · exact hlength
  · intro s' hs' b hb hinst
    rw [mem_append, mem_append] at hs'
    rcases hs' with hs' | hs' | hs'
    · exact h.2 s' (by simp [hslots, hs']) b hb hinst
    · rw [restSlot] at hs'
      split at hs'
      · cases hs'
      obtain rfl := mem_singleton.1 hs'
      obtain ⟨rest, rfl⟩ := head?_eq_some_iff.1 (h.2 s (by simp [hslots]) b (mem_of_mem_erase hb) hinst)
      have hba : b ≠ a := by
        rintro rfl
        exact Bool.false_ne_true (hins.symm.trans hinst)
      rw [erase_cons_tail (by simpa using hba), head?_cons]
    · exact h.2 s' (by simp [hslots, hs']) b hb hinst

end Tarpan.Babeld
