/-
Runs of the Babel route table: received updates, changes of metrics, retractions, expiry and flushes keep it in order
and the sources' counts right, unless a new slot is needed and there is no memory for it.
-/
import Tarpan.Base.Runs
import Tarpan.Babeld.Refs

namespace Tarpan.Babeld

open Base List Function Option Table

variable {t t' : Table} {env : Env} {pfx : BitVec 128} {plen : UInt8} {a b c : Nat} {e : Nat → Nat} {u : Update}

/-! ## Metrics -/

theorem Table.SoundBut.withRoute (h : t.SoundBut e) (f : BabelRoute → BabelRoute) (hf : ∀ r, (f r).place = r.place)
    (hins : ∀ r, (f r).installed = r.installed) : (setRoute t a f).SoundBut e :=
  ⟨h.1.withRoute f hf, h.2.congr rfl fun b hb => setRoute_same (·.installed) hins b ▸ hb⟩

theorem changeRouteMetric_sound (env : Env) (a : Nat) (h : t.SoundBut e) (refmetric cost add : UInt32) :
    (changeRouteMetric env t a refmetric cost add).SoundBut e ∧
    (changeRouteMetric env t a refmetric cost add).routes = t.routes := by
  rw [changeRouteMetric]
  split
  · exact ⟨h, rfl⟩
  · exact ⟨h.withRoute _ (fun _ => rfl) fun _ => rfl, rfl⟩

theorem updateRouteMetric_sound (h : t.SoundBut e) (ha : a ∈ t.routes) :
    Ends (updateRouteMetric env t a) (SoundBut e) := by
  refine .ite (fun _ => .ite (fun _ => ?_) fun _ => .some h) fun _ => ?_
  · have hseqno : (setRoute t a ({ · with seqno := (t.src a).seqno + 1 })).SoundBut e :=
      h.withRoute _ (fun _ => rfl) fun _ => rfl
    obtain ⟨hret, hrts⟩ := changeRouteMetric_sound env a hseqno infinity.toUInt32 infinity.toUInt32 0
    exact .ite (fun _ => routeChanged_sound hret (hrts.symm ▸ ha) _) fun _ => .some hret
  · obtain ⟨hchg, hrts⟩ := changeRouteMetric_sound env a h (t.route a).refmetric.toUInt32
      (env.neighbourCost (t.route a).neigh) (env.inputFilter (t.src a).id (t.src a).pfx
        (t.src a).plen (t.route a).neigh)
    exact .ite (fun _ => routeChanged_sound hchg (hrts.symm ▸ ha) _) fun _ => .some hchg

theorem retractNeighbourRoute_sound (h : t.SoundBut e) (ha : a ∈ t.routes) :
    Ends (retractNeighbourRoute env t a) (SoundBut e) := by
  obtain ⟨hret, hrts⟩ := changeRouteMetric_sound env a h infinity.toUInt32 infinity.toUInt32 0
  refine .ite (fun _ => .ite (fun _ => ?_) fun _ => .some hret) fun _ => .some h
  exact routeChanged_sound hret (hrts.symm ▸ ha) _

/-! ## Flushed routes -/

theorem lostIf_sound (env : Env) (h : t.SoundBut e) (lost : Bool) (src : Source) :
    Ends (lostIf env t lost src) (SoundBut e) := .ite (fun _ => routeLost_sound h) fun _ => .some h

theorem releaseSource_sound (h : t.SoundBut (plus e c)) : Ends (releaseSource t c) (SoundBut e) := by
  obtain ⟨t', hrelease, hshaped, hsl, hrt⟩ := h.1.release
  exact ⟨t', hrelease, hshaped, h.2.congr hsl fun a ha => by rw [← hrt]; exact ha⟩

theorem flushRoute_sound (h : t.SoundBut e) (ha : a ∈ t.routes) : Ends (flushRoute env t a) (SoundBut e) := by
  have hun : (uninstallRoute t a).SoundBut e := uninstallRoute_sound h
  obtain ⟨l1, s, l2, hfound, hsl, has, -⟩ := hun.1.found ha
  have hsrc : ((uninstallRoute t a).route a).src = (t.route a).src := by
    change (update t.route a _ a).src = _
    rw [update_self]
  have hfree := freeRoute_sound env hun hsl has (by rw [uninstallRoute, setInstalled_installed, if_pos rfl])
  rw [src, hsrc] at hfound
  rw [hsrc] at hfree
  unfold flushRoute
  dsimp only
  rw [hfound]
  exact (lostIf_sound env hfree _ _).bind fun t1 h1 => releaseSource_sound h1

/-! ## Updates -/

theorem retainSource_eq_none : retainSource t c = none ↔ (t.source c).routeCount = 0xFFFF := by
  have hlt := (t.source c).routeCount.toNat_lt
  rw [retainSource, ← UInt16.toNat_inj]
  split_ifs with hbd
  · have hnat := UInt16.lt_iff_toNat_lt.1 hbd
    exact iff_of_false (by simp) hnat.ne
  · have hnat : ¬(t.source c).routeCount.toNat < 65535 := fun h => hbd (UInt16.lt_iff_toNat_lt.2 h)
    exact iff_of_true rfl (le_antisymm (Nat.le_of_lt_succ hlt) (not_lt.1 hnat))

theorem retainSource_sound (h : t.SoundBut e) (hc : c ∈ t.srcs) :
    EndsUnless ((t.source c).routeCount = 0xFFFF) (retainSource t c) fun t' =>
      t'.SoundBut (plus e c) ∧ t'.slots = t.slots ∧ t'.route = t.route ∧ t'.brk = t.brk ∧
      t'.maxRouteSlots = t.maxRouteSlots ∧
      ∀ d, (t'.source d).pfx = (t.source d).pfx ∧ (t'.source d).plen = (t.source d).plen := by
  refine ⟨retainSource_eq_none.1, fun t' hret => ?_⟩
  have hshaped := h.1.retain hc hret
  rw [retainSource, ite_none_right_eq_some, some.injEq] at hret
  obtain ⟨-, rfl⟩ := hret
  refine ⟨⟨hshaped, h.2.congr rfl fun _ => id⟩, rfl, rfl, rfl, rfl, fun d => ?_⟩
  rw [setSource_source]
  split_ifs with hd
  · rw [hd]
    exact ⟨rfl, rfl⟩
  · exact ⟨rfl, rfl⟩

theorem uninstallIf_sound (h : t.SoundBut e) (lost : Bool) : (uninstallIf lost t a).SoundBut e ∧
    (uninstallIf lost t a).routes = t.routes ∧ (uninstallIf lost t a).srcs = t.srcs ∧
    (uninstallIf lost t a).source = t.source ∧ ((uninstallIf lost t a).route a).src = (t.route a).src := by
  cases lost with
  | false => exact ⟨h, rfl, rfl, rfl, rfl⟩
  | true =>
    refine ⟨uninstallRoute_sound h, rfl, rfl, rfl, ?_⟩
    change (update t.route a _ a).src = _
    rw [update_self]

section
variable (env : Env) (u : Update) (ha : a ∈ t.routes) (hkey : prefixKey (t.source c).pfx (t.source c).plen = t.key a)
include ha hkey

theorem applyUpdate_sound (h : t.SoundBut (plus e c)) (feasible : Bool) :
    (applyUpdate env t u a c feasible).SoundBut (plus e (t.route a).src) ∧
    (applyUpdate env t u a c feasible).routes = t.routes := by
  have hsrc : (setRoute t a fun r =>
      { r with
        src := c
        time := if (feasible || env.keepUnfeasible) ∧ u.refmetric < infinity then t.now else r.time
        seqno := u.seqno }).SoundBut (plus e (t.route a).src) := by
    refine ⟨h.1.changeSrc ha _ (fun _ => rfl) hkey, h.2.congr rfl fun b hb => ?_⟩
    rw [← setRoute_same (·.installed) (fun _ => ?_) b]
    · exact hb
    · rfl
  obtain ⟨hmet, hrts⟩ := changeRouteMetric_sound env a hsrc u.refmetric.toUInt32 (env.neighbourCost u.neigh)
    (addMetric env u)
  exact ⟨hmet.withRoute ({ · with holdTime := u.holdTime }) (fun _ => rfl) fun _ => rfl, hrts⟩

theorem updateKnown_sound (h : t.SoundBut e) (hc : c ∈ t.srcs) :
    EndsUnless ((t.source c).routeCount = 0xFFFF) (updateKnown env t u a c) (SoundBut e) := by
  obtain ⟨hsnd0, hrts0, hsrcs0, hsource0, hsrc0⟩ := uninstallIf_sound (a := a) h (isLost t u a c)
  have hret := retainSource_sound hsnd0 (hsrcs0 ▸ hc)
  rw [hsource0] at hret
  refine hret.bind fun t1 ⟨hsnd1, hsl1, hrt1, _, _, hpfx⟩ => .of_ends ?_
  have ha1 : a ∈ t1.routes := (routes_congr hsl1).trans hrts0 ▸ ha
  have hsrc1 : (t1.route a).src = (t.route a).src := by rw [hrt1, hsrc0]
  have hkey1 : prefixKey (t1.source c).pfx (t1.source c).plen = t1.key a := by
    rw [(hpfx c).1, (hpfx c).2, hkey, key, key, hsrc1, (hpfx _).1, (hpfx _).2]
  obtain ⟨hsnd2, hrts2⟩ := applyUpdate_sound env u ha1 hkey1 hsnd1 (updateFeasible t c u.seqno u.refmetric)
  rw [hsrc1] at hsnd2
  refine (routeChanged_sound hsnd2 (hrts2 ▸ ha1) _).bind fun t3 h3 => ?_
  exact (lostIf_sound env h3 _ _).bind fun t4 h4 => releaseSource_sound h4

end

/-- What an update finds or makes as its source. -/
structure Sourced (e : Nat → Nat) (t t' : Table) (u : Update) (c : Nat) : Prop where
  sound : t'.SoundBut e
  slots : t'.slots = t.slots
  route : t'.route = t.route
  maxRouteSlots : t'.maxRouteSlots = t.maxRouteSlots
  source : ∀ d ∈ t.srcs, t'.source d = t.source d
  mem : c ∈ t'.srcs
  pfx : (t'.source c).pfx = u.pfx ∧ (t'.source c).plen = u.plen

theorem Sourced.key_eq (h : Sourced e t t' u c) (ht : t.Shaped e) : ∀ a ∈ t.routes, t'.key a = t.key a := by
  intro a ha
  rw [key, h.route, h.source _ (ht.refers a ha)]
  rfl

theorem Table.Shaped.newSource (h : t.Shaped e) (src : Source) (hsrc : src.routeCount = 0) : Table.Shaped e
      { t with source := update t.source t.brk src, srcs := t.brk :: t.srcs, brk := t.brk + 1 } := by
  have hold : ∀ d ∈ t.srcs, update t.source t.brk src d = t.source d :=
    fun d hd => update_of_ne (h.oldSrcs d hd).ne ..
  have hkey : ∀ a ∈ t.routes, prefixKey (update t.source t.brk src (t.route a).src).pfx
      (update t.source t.brk src (t.route a).src).plen = t.key a := by
    intro a ha
    rw [hold _ (h.refers a ha)]
    rfl
  refine ⟨h.slots.congr hkey, h.nodup, h.heap, fun a ha b hb hk => ?_, fun a ha => mem_cons_of_mem _ (h.refers a ha),
    fun c hc => mem_cons_of_mem _ (h.held c hc), fun c hc => ?_, fun a ha => (h.old a ha).trans (Nat.lt_succ_self _),
      fun c hc => ?_, h.size⟩
  · exact h.distinct a ha b hb ((hkey a ha).symm.trans (hk.trans (hkey b hb)))
  · rcases mem_cons.1 hc with rfl | hc
    · have hzero : t.routes.countP (fun a => (t.route a).src = t.brk) = 0 := by
        refine countP_eq_zero.2 fun a ha hsrc => ?_
        exact (h.oldSrcs _ (h.refers a ha)).ne (of_decide_eq_true hsrc)
      have hex : e t.brk = 0 := Nat.eq_zero_of_not_pos fun hpos => (h.oldSrcs _ (h.held _ hpos)).false
      change (update t.source t.brk src t.brk).routeCount.toNat =
        t.routes.countP (fun a => (t.route a).src = t.brk) + e t.brk
      rw [update_self, hsrc, hzero, hex]
      rfl
    · change (update t.source t.brk src c).routeCount.toNat = _
      rw [hold c hc]
      exact h.count c hc
  · rcases mem_cons.1 hc with rfl | hc
    · exact Nat.lt_succ_self _
    · exact (h.oldSrcs c hc).trans (Nat.lt_succ_self _)

theorem findSource_cases (env : Env) (u : Update) (h : t.SoundBut e) :
    findSource env t u.routerId u.pfx u.plen u.seqno = (t, none) ∨
    ∃ t' c, findSource env t u.routerId u.pfx u.plen u.seqno = (t', some c) ∧ Sourced e t t' u c := by
  rw [findSource]
  cases hfind : t.srcs.find? fun c => (t.source c).id = u.routerId ∧ (t.source c).plen = u.plen ∧
    (t.source c).pfx = u.pfx with
  | some c =>
    have hc := find?_some hfind
    simp only [decide_eq_true_eq] at hc
    exact .inr ⟨t, c, rfl, h, rfl, rfl, rfl, fun _ _ => rfl, mem_of_find?_eq_some hfind, hc.2.2, hc.2.1⟩
  | none =>
    split_ifs with hmalloc
    · refine .inr ⟨_, t.brk, rfl, ?_⟩
      have hold : ∀ d ∈ t.srcs, update t.source t.brk ⟨u.routerId, u.pfx, u.plen, u.seqno, infinity, 0, t.now⟩ d =
          t.source d := fun d hd => update_of_ne (h.1.oldSrcs d hd).ne ..
      refine ⟨⟨?_, h.2.congr rfl fun _ => id⟩, rfl, rfl, rfl, hold, mem_cons_self, ?_⟩
      · exact h.1.newSource _ rfl
      · dsimp only
        rw [update_self]
        exact ⟨rfl, rfl⟩
    · exact .inl rfl

theorem findRoute_some (h : t.Shaped e) (hfind : findRoute t u.pfx u.plen u.neigh u.nexthop = some a) :
    a ∈ t.routes ∧ t.key a = prefixKey u.pfx u.plen := h.mem_slotRoutes.1 (mem_of_find?_eq_some hfind)

theorem findRoute_none (h : t.Shaped e) (hfind : findRoute t u.pfx u.plen u.neigh u.nexthop = none) : IsNew t u := by
  intro b hb hk hn hx
  have hnot := find?_eq_none.1 hfind b (h.mem_slotRoutes.2 ⟨hb, hk⟩)
  simp [hn, hx] at hnot

theorem updateSrc_cases (env : Env) (u : Update) (h : t.SoundBut e) :
    updateSrc env t u (findRoute t u.pfx u.plen u.neigh u.nexthop) = (t, none) ∨
    ∃ t' c, updateSrc env t u (findRoute t u.pfx u.plen u.neigh u.nexthop) = (t', some c) ∧ Sourced e t t' u c := by
  rw [updateSrc]
  cases hfil : (findRoute t u.pfx u.plen u.neigh u.nexthop).filter fun a =>
      (t.src a).id = u.routerId with
  | none => exact findSource_cases env u h
  | some a =>
    obtain ⟨hfind, -⟩ := filter_eq_some_iff.1 hfil
    obtain ⟨ha, hk⟩ := findRoute_some h.1 hfind
    exact .inr ⟨t, _, rfl, h, rfl, rfl, rfl, fun _ _ => rfl, h.1.refers a ha, prefixKey_inj.1 hk⟩

theorem Sourced.slotRoutes_eq (h : Sourced e t t' u c) (ht : t.Shaped e) (pfx : BitVec 128) (plen : UInt8) :
    slotRoutes t' pfx plen = slotRoutes t pfx plen := slotRoutes_congr h.slots (h.key_eq ht)

/-- The update is stored as a new route. -/
def Stores (env : Env) (t : Table) (u : Update) (c : Nat) : Prop :=
  u.refmetric < infinity ∧ (updateFeasible t c u.seqno u.refmetric ∨ env.keepUnfeasible) ∧ env.mallocRoute

/-- An update for a new route: it is stored or not; if the array is full and cannot grow, the source stays retained. -/
theorem updateNew_cases (env : Env) (u : Update) (h : t.SoundBut e) (hc : c ∈ t.srcs)
    (hpfx : (t.source c).pfx = u.pfx ∧ (t.source c).plen = u.plen) (hnew : IsNew t u) :
    EndsUnless ((t.source c).routeCount = 0xFFFF) (updateNew env t u c) fun t' =>
      (Stores env t u c ∧ Stuck env t u.pfx u.plen) ∧ t'.SoundBut (plus e c) ∨
        ¬(Stores env t u c ∧ Stuck env t u.pfx u.plen) ∧ t'.SoundBut e := by
  refine .ite (fun h1 => .some (.inr ⟨fun hs => UInt16.not_lt.2 h1 hs.1.1, h⟩)) fun h1 => ?_
  refine .ite (fun h2 => .some (.inr ⟨fun hs => hs.1.2.1.elim h2.1 h2.2, h⟩)) fun h2 => ?_
  refine .ite (fun h3 => .some (.inr ⟨fun hs => h3 hs.1.2.2, h⟩)) fun h3 => ?_
  have hstores : Stores env t u c := ⟨UInt16.not_le.1 h1, by tauto, not_not.1 h3⟩
  refine (retainSource_sound h hc).bind fun t1 ⟨hsnd1, hsl1, hrt1, hbrk1, hmax1, hsame⟩ => .of_ends ?_
  have hpfx1 : (t1.source c).pfx = u.pfx ∧ (t1.source c).plen = u.plen := by
    rw [(hsame c).1, (hsame c).2]
    exact hpfx
  have hkey1 : ∀ a, t1.key a = t.key a := fun a => by rw [key, hrt1, (hsame _).1, (hsame _).2, key]
  have hnew1 : IsNew t1 u := by
    intro b hb hk
    rw [hrt1]
    exact hnew b (routes_congr hsl1 ▸ hb) (hkey1 b ▸ hk)
  have hstuck : Stuck env t1 u.pfx u.plen ↔ Stuck env t u.pfx u.plen := by
    rw [Stuck, Stuck, slotRoutes_congr hsl1 (fun a _ => hkey1 a), hmax1, hsl1]
  obtain ⟨hfail, hins⟩ := insertRoute_sound env hsnd1 hpfx1 hnew1
  rw [← hbrk1]
  by_cases hs : Stuck env t u.pfx u.plen
  · rw [hfail (hstuck.2 hs)]
    exact .some (.inl ⟨⟨hstores, hs⟩, newRoute_freed hsnd1 env u c⟩)
  obtain ⟨t2, ht2, hsnd2, hmem⟩ := hins fun hs' => hs (hstuck.1 hs')
  rw [ht2]
  exact (considerRoute_sound hsnd2 hmem).mono fun t3 h3 => .inr ⟨fun hboth => hs hboth.2, h3⟩

/-- The update comes from elsewhere, and neither its prefix nor the filter rejects it. -/
def Passes (env : Env) (u : Update) : Prop :=
  u.routerId ≠ env.myid ∧ ¬env.martianPrefix u.pfx u.plen ∧ addMetric env u < infinity.toUInt32

/-- The update passes the checks, is for a route that is not in the table, and is to be stored. -/
def StoresNew (env : Env) (t : Table) (u : Update) : Prop :=
  Passes env u ∧
  findRoute t u.pfx u.plen u.neigh u.nexthop = none ∧
  ∃ t' c, findSource env t u.routerId u.pfx u.plen u.seqno = (t', some c) ∧ Stores env t' u c

/-- Only a source with as many references as it can count has no room for one more. -/
theorem Sourced.full (h : Sourced e t t' u c) (ht : t.Shaped e) (hfull : (t'.source c).routeCount = 0xFFFF) :
    (∃ d ∈ t.srcs, (t.source d).routeCount = 0xFFFF) ∧ (e c = 0 → slotRoutes t u.pfx u.plen ≠ []) := by
  have hcnt := h.sound.1.count c h.mem
  rw [hfull] at hcnt
  have hrts : t'.routes = t.routes := routes_congr h.slots
  have hrefers : e c = 0 → ∃ a ∈ t.routes, (t.route a).src = c := by
    intro hzero
    rw [hzero, Nat.add_zero] at hcnt
    have hpos : 0 < t'.routes.countP fun a => (t'.route a).src = c := hcnt ▸ by decide
    obtain ⟨a, ha, hsrc⟩ := countP_pos_iff.1 hpos
    exact ⟨a, hrts ▸ ha, h.route ▸ of_decide_eq_true hsrc⟩
  have hmem : c ∈ t.srcs := by
    rcases Nat.eq_zero_or_pos (e c) with hzero | hpos
    · obtain ⟨a, ha, rfl⟩ := hrefers hzero
      exact ht.refers a ha
    · exact ht.held c hpos
  refine ⟨⟨c, hmem, by rw [← h.source c hmem, hfull]⟩, fun hzero => ?_⟩
  obtain ⟨a, ha, hsrc⟩ := hrefers hzero
  refine ne_nil_of_mem (ht.mem_slotRoutes.2 ⟨ha, ?_⟩)
  rw [key, hsrc, ← h.source c hmem, h.pfx.1, h.pfx.2]

/-- `update_route` keeps the table in order exactly if it need not grow without memory; otherwise one more reference has
no route. -/
theorem updateRoute_cases (env : Env) (u : Update) (h : t.SoundBut e) :
    EndsUnless ((∃ d ∈ t.srcs, (t.source d).routeCount = 0xFFFF) ∧ ((∀ c, e c = 0) → ¬Stuck env t u.pfx u.plen))
      (updateRoute env t u) fun t' =>
        ¬(StoresNew env t u ∧ Stuck env t u.pfx u.plen) ∧ t'.SoundBut e ∨
          (StoresNew env t u ∧ Stuck env t u.pfx u.plen) ∧ ∃ c, t'.SoundBut (plus e c) := by
  refine .ite (fun h1 => .some (.inl ⟨fun hs => hs.1.1.1 h1, h⟩)) fun h1 => ?_
  refine .ite (fun h2 => .some (.inl ⟨fun hs => hs.1.1.2.1 h2, h⟩)) fun h2 => ?_
  refine .ite (fun h3 => .some (.inl ⟨fun hs => UInt32.not_lt.2 h3 hs.1.1.2.2, h⟩)) fun h3 => ?_
  have hpass : Passes env u := ⟨h1, h2, UInt32.not_le.1 h3⟩
  dsimp only
  cases hfind : findRoute t u.pfx u.plen u.neigh u.nexthop with
  | some a =>
    -- a route of the table is updated, and none is stored
    have hnot : ¬(StoresNew env t u ∧ Stuck env t u.pfx u.plen) := fun hboth => by
      have hnone := hboth.1.2.1
      rw [hfind] at hnone
      cases hnone
    have hcases := updateSrc_cases env u h
    rw [hfind] at hcases
    rcases hcases with hsrc | ⟨t1, c, hsrc, hsourced⟩
    · rw [hsrc]
      exact .some (.inl ⟨hnot, h⟩)
    rw [hsrc]
    obtain ⟨ha, hk⟩ := findRoute_some h.1 hfind
    have hkey : prefixKey (t1.source c).pfx (t1.source c).plen = t1.key a := by
      rw [hsourced.pfx.1, hsourced.pfx.2, hsourced.key_eq h.1 a ha, hk]
    have hkn := updateKnown_sound env u (routes_congr hsourced.slots ▸ ha) hkey hsourced.sound hsourced.mem
    refine hkn.imp (fun hfull => ?_) fun t' h' => .inl ⟨hnot, h'⟩
    obtain ⟨hd, hne⟩ := hsourced.full h.1 hfull
    exact ⟨hd, fun hzero hstuck => hne (hzero c) hstuck.1⟩
  | none =>
    have hupd : updateSrc env t u none = findSource env t u.routerId u.pfx u.plen u.seqno := rfl
    rw [hupd]
    rcases findSource_cases env u h with hsrc | ⟨t1, c, hsrc, hsourced⟩
    · rw [hsrc]
      refine .some (.inl ⟨fun hboth => ?_, h⟩)
      obtain ⟨-, -, t', c, hsrc', -⟩ := hboth.1
      rw [hsrc] at hsrc'
      cases hsrc'
    · rw [hsrc]
      have hnew : IsNew t1 u := by
        have hrts : t1.routes = t.routes := routes_congr hsourced.slots
        intro b hb hk
        rw [hsourced.key_eq h.1 b (hrts ▸ hb)] at hk
        rw [hsourced.route]
        exact findRoute_none h.1 hfind b (hrts ▸ hb) hk
      have hstuck : Stuck env t1 u.pfx u.plen ↔ Stuck env t u.pfx u.plen := by
        rw [Stuck, Stuck, hsourced.slotRoutes_eq h.1, hsourced.maxRouteSlots, hsourced.slots]
      have hstores : StoresNew env t u ↔ Stores env t1 u c := by
        constructor
        · rintro ⟨-, -, t', c', hsrc', hstores⟩
          rw [hsrc] at hsrc'
          cases hsrc'
          exact hstores
        · exact fun hstores => ⟨hpass, hfind, t1, c, hsrc, hstores⟩
      rw [hstores, ← hstuck]
      refine (updateNew_cases env u hsourced.sound hsourced.mem hsourced.pfx hnew).imp (fun hfull => ?_) fun t' h' => ?_
      · obtain ⟨hd, hne⟩ := hsourced.full h.1 hfull
        exact ⟨hd, fun hzero hs => hne (hzero c) (hstuck.1 hs).1⟩
      · exact h'.symm.imp_right fun hboth => ⟨hboth.1, c, hboth.2⟩

/-! ## Sources -/

theorem Table.SoundBut.withSource (h : t.SoundBut e) (f : Source → Source) (hf : ∀ src, (f src).frame = src.frame) :
    (setSource t c f).SoundBut e := ⟨h.1.withSource f hf, h.2.congr rfl fun _ => id⟩

theorem updateSource_sound (h : t.SoundBut e) (c : Nat) (seqno metric : UInt16) :
    (updateSource t c seqno metric).SoundBut e := by
  rw [updateSource]
  split
  · exact h
  · refine h.withSource _ fun src => ?_
    split <;> rfl

theorem expireSource_sound (h : t.SoundBut e) (c : Nat) : (expireSource t c).SoundBut e := by
  have hclock : (if t.now < (t.source c).time then setSource t c ({ · with time := t.now }) else t).SoundBut e := by
    split
    · exact h.withSource _ fun _ => rfl
    · exact h
  rw [expireSource]
  generalize (if t.now < (t.source c).time then setSource t c ({ · with time := t.now }) else t) = t1 at hclock ⊢
  split_ifs with hunused
  · have hzero : ∀ a ∈ t1.routes, (t1.route a).src ≠ c := by
      rintro a ha rfl
      have hcnt := hclock.1.count _ (hclock.1.refers a ha)
      rw [hunused.2] at hcnt
      have hpos : 0 < t1.routes.countP fun b => (t1.route b).src = (t1.route a).src := countP_pos_iff.2 ⟨a, ha, by simp⟩
      rw [UInt16.toNat_zero] at hcnt
      omega
    have hmem : ∀ d ∈ t1.srcs.erase c, d ∈ t1.srcs := fun d hd => mem_of_mem_erase hd
    obtain ⟨hshaped, hfirst⟩ := hclock
    refine ⟨{ hshaped with
      refers := fun a ha => ?_, held := fun d hd => ?_, count := fun d hd => hshaped.count d (hmem d hd)
      oldSrcs := fun d hd => hshaped.oldSrcs d (hmem d hd) }, hfirst⟩
    · exact (mem_erase_of_ne (hzero a ha)).2 (hshaped.refers a ha)
    · refine (mem_erase_of_ne ?_).2 (hshaped.held d hd)
      rintro rfl
      have hcnt := hshaped.count d (hshaped.held d hd)
      rw [hunused.2, UInt16.toNat_zero] at hcnt
      omega
  · exact hclock

theorem foldl_expireSource_sound : ∀ (l : List Nat) {t : Table}, t.SoundBut e → (l.foldl expireSource t).SoundBut e
  | [], _, h => h
  | c :: l, _, h => foldl_expireSource_sound l (expireSource_sound h c)

/-! ## Runs -/

/-- The table in order: its slots, its routes and the counts of its sources, and the search finds every prefix or its
place. -/
def Table.Good (t : Table) : Prop :=
  t.SoundBut (fun _ => 0) ∧ ∀ pfx plen, Splits t (prefixKey pfx plen) (findRouteSlot t pfx plen)

theorem good_iff : t.Good ↔ t.SoundBut fun _ => 0 := ⟨And.left, fun h => ⟨h, findRouteSlot_splits h.1.slots⟩⟩

/-- A step that stores a route under a new prefix has memory for the slot. -/
def Op.Keeps (s : Option Table) (op : Op) : Prop :=
  ∀ t ∈ s, ∀ env u, op = .update env u → StoresNew env t u → ¬Stuck env t u.pfx u.plen

/-- A step of another kind than an update has a result, and keeps the table in order. -/
theorem step_sound (h : t.SoundBut e) (op : Op) (hop : ∀ env u, op ≠ .update env u) :
    Ends (op.step (some t)) (SoundBut e) := by
  have hrt : ∀ (a : Nat) (f : Table → Nat → Option Table), (a ∈ t.routes → Ends (f t a) (SoundBut e)) →
      Ends (forRoute t a f) (SoundBut e) :=
    fun a f hf => .ite (fun ha => hf ((h.1.heap a).1 ha)) fun _ => .some h
  cases op with
  | update env u => exact absurd rfl (hop env u)
  | metric env a => exact hrt a _ (updateRouteMetric_sound h)
  | retract env a => exact hrt a _ (retractNeighbourRoute_sound h)
  | flush env a => exact hrt a _ (flushRoute_sound h)
  | uninstall a => exact hrt a (fun t a => some (uninstallRoute t a)) fun _ => .some (uninstallRoute_sound h)
  | xroute pfx plen =>
    refine .some ?_
    rw [xrouteAdded]
    split
    · exact uninstallRoute_sound h
    · exact h
  | send pfx plen interferes diversityFactor =>
    refine .some ?_
    rw [sendUpdate]
    split
    · exact updateSource_sound h _ _ _
    · exact h
  | expire => exact .some (foldl_expireSource_sound t.srcs h)
  | clock now => exact .some ⟨{ h.1 with }, h.2⟩

theorem good_step_iff (s : Option Table) (op : Op) (h : ∀ t ∈ s, t.Good) : (∀ t ∈ op.step s, t.Good) ↔ op.Keeps s := by
  cases s with
  | none => exact iff_of_true nofun nofun
  | some t =>
    have hsnd := (h t rfl).1
    by_cases hop : ∃ env u, op = .update env u
    · obtain ⟨env, u, rfl⟩ := hop
      have hkeeps : Op.Keeps (some t) (.update env u) ↔ ¬(StoresNew env t u ∧ Stuck env t u.pfx u.plen) := by
        constructor
        · exact fun hkeeps hboth => hkeeps t rfl env u rfl hboth.1 hboth.2
        · rintro hnot t' ⟨⟩ env' u' ⟨⟩ hstores hstuck
          exact hnot ⟨hstores, hstuck⟩
      have hstep : Op.step (some t) (.update env u) = updateRoute env t u := rfl
      obtain ⟨hstops, hcases⟩ := updateRoute_cases env u hsnd
      rw [hkeeps, hstep]
      cases hupd : updateRoute env t u with
      | none => exact iff_of_true nofun fun hboth => (hstops hupd).2 (fun _ => rfl) hboth.2
      | some t' =>
        rcases hcases t' hupd with ⟨hnot, hsnd'⟩ | ⟨hboth, c, hsnd'⟩
        · exact iff_of_true (by rintro _ ⟨⟩; exact good_iff.2 hsnd') hnot
        refine iff_of_false (fun hall => ?_) (not_not.2 hboth)
        have hex := hsnd'.1.extra_eq (hall t' rfl).1.1 (hsnd'.1.held c (plus_pos _ c))
        rw [plus_self] at hex
        exact absurd hex (Nat.succ_ne_zero _)
    · obtain ⟨t', ht', hsnd'⟩ := step_sound hsnd op fun env u heq => hop ⟨env, u, heq⟩
      rw [ht']
      refine iff_of_true (by rintro _ ⟨⟩; exact good_iff.2 hsnd') ?_
      rintro _ _ env u rfl
      exact absurd ⟨env, u, rfl⟩ hop

/-- In a table in order, an assertion can only stop an update for a source that counts as many routes as it can. -/
theorem assertion_only_full (h : t.Good) (op : Op) (hnone : op.step (some t) = none) :
    ∃ env u, op = .update env u ∧ ∃ d ∈ t.srcs, (t.source d).routeCount = 0xFFFF := by
  by_cases hop : ∃ env u, op = .update env u
  · obtain ⟨env, u, rfl⟩ := hop
    exact ⟨env, u, rfl, ((updateRoute_cases env u h.1).1 hnone).1⟩
  obtain ⟨t', ht', -⟩ := step_sound h.1 op fun env u heq => hop ⟨env, u, heq⟩
  rw [ht'] at hnone
  cases hnone

/-- The table is in order in all states of the runs in which every update that is stored under a new prefix has memory
for the slot, and of no others. From such a state, an assertion can only stop an update whose source counts as many
routes as it can. -/
theorem babelTable_runs (route : Nat → BabelRoute) (source : Nat → Source) (now : Int) (ops : List Op) :
    (Always Op.step (fun s => ∀ t ∈ s, t.Good) ops (some (emptyTable route source now)) ↔
      Meets Op.step (fun s op => op.Keeps s) ops (some (emptyTable route source now))) ∧
    ∀ (t : Table) (op : Op), t.Good → op.step (some t) = none →
      ∃ env u, op = .update env u ∧ ∃ d ∈ t.srcs, (t.source d).routeCount = 0xFFFF := by
  constructor
  · refine always_iff_meets good_step_iff ops ?_
    rintro t ⟨⟩
    refine good_iff.2 ⟨⟨⟨?_, ?_, ?_⟩, ?_, ?_, ?_, ?_, ?_, ?_, ?_, ?_, ?_⟩, ?_⟩
    all_goals simp [emptyTable, routes, Table.InstalledFirst]
  · exact fun t op hgood hnone => assertion_only_full hgood op hnone

/-- A neighbour of cost 96, no filters, and no memory for the array of slots. -/
def noMemory : Env where
  myid := 1
  martianPrefix := fun _ _ => false
  inputFilter := fun _ _ _ _ => 0
  neighbourCost := fun _ => 96
  findXroute := fun _ _ => none
  keepUnfeasible := false
  allowDuplicates := -1
  kernelAdd := true
  kernelModify := true
  kernelMetric := true
  realloc := false
  mallocRoute := true
  mallocSource := true

/-- An update for 2001:db8::/32. -/
def firstUpdate : Update :=
  { routerId := 2, pfx := 0x20010db8000000000000000000000000#128, plen := 32, seqno := 7, refmetric := 0,
    interval := 400,
    neigh := 0, nexthop := 0xfe800000000000000000000000000002#128 }

def zeroTable : Table := emptyTable (fun _ => ⟨0, 0, 0, 0, 0, 0, 0, 0, 0, false⟩) (fun _ => ⟨0, 0, 0, 0, 0, 0, 0⟩) 1000

/-- The first update finds no memory: its source stays retained, and no route refers to it. -/
theorem babelTable_runs_no_memory :
    ¬Always Op.step (fun s => ∀ t ∈ s, t.Good) [.update noMemory firstUpdate] (some zeroTable) := by
  rintro ⟨-, hgood⟩
  have hend : ∀ t ∈ Op.step (some zeroTable) (.update noMemory firstUpdate),
      0 ∈ t.srcs ∧ (t.source 0).routeCount = 1 ∧ t.slots = [] := by
    decide
  cases hstep : Op.step (some zeroTable) (.update noMemory firstUpdate) with
  | none => exact absurd hstep (by decide)
  | some t =>
    obtain ⟨hmem, hcnt, hsl⟩ := hend t hstep
    have hright := (hgood t hstep).1.1.count 0 hmem
    rw [hcnt, routes, hsl, flatten_nil, countP_nil] at hright
    exact absurd hright (by decide)

end Tarpan.Babeld
