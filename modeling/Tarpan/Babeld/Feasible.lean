/-
The feasibility condition of Babel: an installed route is feasible, or is the advertisement that last was, in all runs
in which no infeasible update changes an installed route of the same source and the kernel refuses no metric. An
infeasible update from the same source does change the sequence number and the metric of an installed route.
-/
import Tarpan.Babeld.TableRun

namespace Tarpan.Babeld

open Base Function Option Prod Bool

variable {t t' t1 : Table} {env : Env} {pfx : BitVec 128} {plen : UInt8} {a b c : Nat} {e : Nat → Nat} {u : Update}

/-! ## Advertisements -/

/-- The advertisement that a route stands for. -/
def advertised (t : Table) (a : Nat) : Nat × UInt16 × UInt16 :=
  ((t.route a).src, (t.route a).seqno, (t.route a).refmetric)

/-- The feasibility distance of a source, and when it was last sent. -/
def distance (t : Table) (c : Nat) : UInt16 × UInt16 × Int :=
  ((t.source c).seqno, (t.source c).metric, (t.source c).time)

theorem updateFeasible_congr (hdist : distance t' c = distance t c) (hnow : t'.now = t.now) (seqno refmetric : UInt16) :
    updateFeasible t' c seqno refmetric = updateFeasible t c seqno refmetric := by
  simp only [distance, mk.injEq] at hdist
  simp [updateFeasible, hdist, hnow]

theorem routeFeasible_of {adv : Nat × UInt16 × UInt16} (h : advertised t a = adv) :
    routeFeasible t a = updateFeasible t adv.1 adv.2.1 adv.2.2 := by
  rw [← h]
  rfl

/-- Routes are installed only if they are feasible, and advertisements and distances stay. -/
structure Settles (t t' : Table) : Prop where
  advertised : ∀ a, advertised t' a = advertised t a
  distance : ∀ c, distance t' c = distance t c
  now : t'.now = t.now
  heap : ∀ a ∈ t'.heap, a ∈ t.heap
  installed : ∀ a, (t'.route a).installed → (t.route a).installed ∨ routeFeasible t a

theorem Settles.refl (t : Table) : Settles t t := ⟨fun _ => rfl, fun _ => rfl, rfl, fun _ => id, fun _ => .inl⟩

theorem Settles.feasible (h : Settles t t') (a : Nat) : routeFeasible t' a = routeFeasible t a := by
  rw [routeFeasible_of (h.advertised a)]
  exact updateFeasible_congr (h.distance _) h.now ..

theorem Settles.trans (h : Settles t t1) (h' : Settles t1 t') : Settles t t' := by
  refine ⟨fun a => (h'.advertised a).trans (h.advertised a), fun c => (h'.distance c).trans (h.distance c),
    h'.now.trans h.now, fun a ha => h.heap a (h'.heap a ha), fun a ha => ?_⟩
  rcases h'.installed a ha with hins | hfeas
  · exact h.installed a hins
  · exact .inr (h.feasible a ▸ hfeas)

theorem Settles.stays (t : Table) : Gives (some t) (Settles t) := .some (.refl t)

theorem setInstalled_settles (t : Table) (a : Nat) {x : Bool} (hx : x = true → routeFeasible t a) :
    Settles t (setInstalled t a x) := by
  refine ⟨fun b => ?_, fun _ => rfl, rfl, fun _ => id, fun b hb => ?_⟩
  · change ((update t.route a _ b).src, (update t.route a _ b).seqno,
      (update t.route a _ b).refmetric) = _
    by_cases hba : b = a
    · rw [hba, update_self]
      rfl
    · rw [update_of_ne hba]
      rfl
  · rw [setInstalled_installed] at hb
    split_ifs at hb with hba
    · exact .inr (hba ▸ hx hb)
    · exact .inl hb

theorem moveToHead_settles : Gives (moveToHead t a) (Settles t) := by
  unfold moveToHead
  dsimp only
  split
  · exact .some { Settles.refl t with }
  · exact .none

theorem installRoute_settles (hfeas : routeFeasible t a) : Gives (installRoute env t a) (Settles t) := by
  refine .ite (fun _ => .stays t) fun _ => ?_
  dsimp only
  split
  · exact .none
  · refine .ite (fun _ => .stays t) fun _ => .ite (fun _ => ?_) fun _ => .stays t
    exact moveToHead_settles.mono fun _ => (setInstalled_settles t a fun _ => hfeas).trans

theorem switchRoutes_settles {old : Option Nat} (hfeas : routeFeasible t a) :
    Gives (switchRoutes env t old a) (Settles t) := by
  cases old with
  | none => exact installRoute_settles hfeas
  | some d =>
    refine .ite (fun _ => .stays t) fun _ => .ite (fun _ => ?_) fun _ => .stays t
    have hold : Settles t (setInstalled t d false) := setInstalled_settles t d (by simp)
    have hnew := setInstalled_settles (setInstalled t d false) a (x := true) fun _ => by rwa [hold.feasible]
    exact moveToHead_settles.mono fun _ => (hold.trans hnew).trans

theorem considerRoute_settles : Gives (considerRoute env t a) (Settles t) := by
  refine .ite (fun _ => .stays t) fun _ => .ite (fun _ => .stays t) fun hfeas => ?_
  refine .ite (fun _ => .stays t) fun _ => .ite (fun _ => ?_) fun _ => .stays t
  exact switchRoutes_settles (not_not.1 hfeas)

theorem routeLost_settles : Gives (routeLost env t pfx plen) (Settles t) := by
  unfold routeLost
  split
  · exact considerRoute_settles
  · exact .stays t

theorem lostIf_settles {lost : Bool} {src : Source} : Gives (lostIf env t lost src) (Settles t) :=
  .ite (fun _ => routeLost_settles) fun _ => .stays t

theorem routeChanged_settles {oldmetric : Nat} : Gives (routeChanged env t a oldmetric) (Settles t) := by
  refine .ite (fun _ => .ite (fun _ => ?_) fun _ => .stays t) fun _ => considerRoute_settles
  split
  · exact .ite (fun _ => considerRoute_settles) fun _ => .stays t
  · exact .stays t

theorem recounted_settles (f : Source → Source) (hf : ∀ src, (f src).seqno = src.seqno ∧ (f src).metric = src.metric ∧
    (f src).time = src.time) : Settles t (setSource t c f) := by
  refine { Settles.refl t with distance := fun d => ?_ }
  rw [distance, setSource_source]
  split_ifs with hd
  · rw [(hf _).1, (hf _).2.1, (hf _).2.2, hd]
    rfl
  · rfl

theorem retainSource_settles : Gives (retainSource t c) fun t' => Settles t t' ∧ t'.route = t.route ∧
    t'.heap = t.heap :=
  .ite (fun _ => .some ⟨recounted_settles _ fun _ => ⟨rfl, rfl, rfl⟩, rfl, rfl⟩) fun _ => .none

theorem releaseSource_settles : Gives (releaseSource t c) (Settles t) :=
  .ite (fun _ => .some (recounted_settles _ fun _ => ⟨rfl, rfl, rfl⟩)) fun _ => .none

/-! ## Steps -/

/-- The installed routes after a step are feasible, or were installed with the same advertisement before it. -/
def Carries (t t' : Table) : Prop :=
  ∀ a ∈ t'.heap, (t'.route a).installed →
    routeFeasible t' a ∨ (a ∈ t.heap ∧ advertised t' a = advertised t a ∧ (t.route a).installed)

theorem Carries.settles (h : Carries t t1) (h' : Settles t1 t') : Carries t t' := by
  intro a ha hins
  rw [h'.feasible, h'.advertised]
  rcases h'.installed a hins with hins | hfeas
  · exact h a (h'.heap a ha) hins
  · exact .inl hfeas

theorem carries_of_route (hrt : ∀ b ≠ a, t'.route b = t.route b) (hheap : t'.heap = t.heap)
    (ha : (t'.route a).installed → routeFeasible t' a ∨ (advertised t' a = advertised t a ∧ (t.route a).installed)) :
    Carries t t' := by
  intro b hb hins
  rw [hheap] at hb
  by_cases hba : b = a
  · subst hba
    exact (ha hins).imp_right fun hsame => ⟨hb, hsame⟩
  rw [hrt b hba] at hins
  refine .inr ⟨hb, ?_, hins⟩
  rw [advertised, hrt b hba]
  rfl

/-- The routes are the same. -/
def SameRoutes (t t' : Table) : Prop := t'.route = t.route ∧ t'.heap = t.heap

theorem SameRoutes.carries (h : SameRoutes t t') : Carries t t' :=
  carries_of_route (a := 0) (fun b _ => congrFun h.1 b) h.2 fun hins =>
    .inr ⟨by rw [advertised, h.1]; rfl, h.1 ▸ hins⟩

theorem Settles.carries (h : Settles t t') : Carries t t' := (SameRoutes.carries ⟨rfl, rfl⟩).settles h

theorem Carries.of_same (h : Carries t1 t') (hsame : SameRoutes t t1) : Carries t t' := by
  obtain ⟨hrt, hheap⟩ := hsame
  intro a ha hins
  have hcase := h a ha hins
  rwa [hheap, show advertised t1 a = advertised t a by rw [advertised, hrt]; rfl, hrt] at hcase

/-- Only the route `a` is changed. It is installed as before, and stands for the advertisement `adv`. -/
structure Readvertises (t t' : Table) (a : Nat) (adv : Nat × UInt16 × UInt16) : Prop where
  others : ∀ b ≠ a, t'.route b = t.route b
  heap : t'.heap = t.heap
  source : t'.source = t.source
  now : t'.now = t.now
  installed : (t'.route a).installed = (t.route a).installed
  advertised : advertised t' a = adv

namespace Readvertises

variable {adv adv' : Nat × UInt16 × UInt16}

theorem trans (h : Readvertises t t1 a adv) (h' : Readvertises t1 t' a adv') : Readvertises t t' a adv' :=
  ⟨fun b hb => (h'.others b hb).trans (h.others b hb), h'.heap.trans h.heap, h'.source.trans h.source,
    h'.now.trans h.now,
    h'.installed.trans h.installed, h'.advertised⟩

theorem of_setRoute (t : Table) (f : BabelRoute → BabelRoute)
    (hf : (f (t.route a)).installed = (t.route a).installed) : Readvertises t (setRoute t a f) a
      ((f (t.route a)).src, (f (t.route a)).seqno, (f (t.route a)).refmetric) := by
  have hself : (setRoute t a f).route a = f (t.route a) := update_self ..
  refine ⟨fun b hb => update_of_ne hb .., rfl, rfl, rfl, by rw [hself, hf], ?_⟩
  rw [Babeld.advertised, hself]

theorem feasible (h : Readvertises t t' a adv) : routeFeasible t' a = updateFeasible t adv.1 adv.2.1 adv.2.2 := by
  rw [routeFeasible_of h.advertised]
  exact updateFeasible_congr (by rw [distance, h.source]; rfl) h.now ..

theorem carries (h : Readvertises t t' a adv)
    (ha : (t.route a).installed → updateFeasible t adv.1 adv.2.1 adv.2.2 ∨ adv = Babeld.advertised t a) :
    Carries t t' := by
  refine carries_of_route h.others h.heap fun hins => ?_
  rw [h.installed] at hins
  rw [h.feasible, h.advertised]
  exact (ha hins).imp_right fun heq => ⟨heq, hins⟩

end Readvertises

/-! ## Metrics -/

/-- The kernel does not take the new metric of the route. -/
def Refused (env : Env) (r : BabelRoute) (refmetric cost add : UInt32) : Prop :=
  r.installed ∧ metricToKernel (routeMetric r) ≠ metricToKernel (min (refmetric + cost + add).toNat infinity.toNat) ∧
    ¬env.kernelMetric

instance Refused.decidable (env : Env) (r : BabelRoute) (refmetric cost add : UInt32) :
    Decidable (Refused env r refmetric cost add) := inferInstanceAs (Decidable (_ ∧ _ ∧ _))

theorem changeRouteMetric_eq (env : Env) (t : Table) (a : Nat) (refmetric cost add : UInt32) :
    Readvertises t (changeRouteMetric env t a refmetric cost add) a ((t.route a).src, (t.route a).seqno,
      if Refused env (t.route a) refmetric cost add then (t.route a).refmetric else refmetric.toUInt16) := by
  split_ifs with href
  · rw [show changeRouteMetric env t a refmetric cost add = t from if_pos href]
    exact ⟨fun _ _ => rfl, rfl, rfl, rfl, rfl, rfl⟩
  · rw [show changeRouteMetric env t a refmetric cost add = setRoute t a _ from if_neg href]
    exact .of_setRoute t _ rfl

theorem seqnoCompare_succ (s : UInt16) : 0 < seqnoCompare (s + 1) s := by
  have hne : s + 1 ≠ s := by simp
  have hbit : (s - (s + 1)) &&& 0x8000 ≠ 0 := by
    have hneg : s - (s + 1) = 0xFFFF := by
      rw [UInt16.sub_eq_add_neg, UInt16.neg_add, UInt16.sub_eq_add_neg, ← UInt16.add_assoc, UInt16.add_right_neg]
      rfl
    rw [hneg]
    decide
  rw [seqnoCompare, if_neg hne, if_pos hbit]
  decide

theorem infinite_feasible (seqno refmetric : UInt16) (h : infinity ≤ refmetric) :
    updateFeasible t c seqno refmetric := by
  simp only [updateFeasible, decide_eq_true_eq]
  exact .inr (.inl h)

/-- What follows where the metric of a route is changed: the new advertisement is feasible or the old one. -/
theorem changeRouteMetric_carries (refmetric cost add : UInt32)
    (h : (t.route a).installed → ¬Refused env (t.route a) refmetric cost add →
      updateFeasible t (t.route a).src (t.route a).seqno refmetric.toUInt16 ∨
        refmetric.toUInt16 = (t.route a).refmetric) :
    Carries t (changeRouteMetric env t a refmetric cost add) := by
  refine (changeRouteMetric_eq env t a refmetric cost add).carries fun ha => ?_
  split_ifs with href
  · exact .inr rfl
  · exact (h ha href).imp_right fun hsame => by rw [hsame]; rfl

/-- A step that carries the installed routes, and one that settles them. -/
theorem Carries.then {x : Option Table} (h : Carries t t1) (hx : Gives x (Settles t1)) : Gives x (Carries t) :=
  hx.mono fun _ => h.settles

theorem Carries.stays (t : Table) : Gives (some t) (Carries t) := .some (Settles.refl t).carries

/-- An expired route gets the number after that of its source, with which it is feasible. -/
theorem expired_carries (env : Env) (t : Table) (a : Nat) :
    Carries t (retractRoute env (setRoute t a ({ · with seqno := (t.src a).seqno + 1 })) a) := by
  have hset := Readvertises.of_setRoute (a := a) t ({ · with seqno := (t.src a).seqno + 1 }) rfl
  refine (hset.trans (changeRouteMetric_eq ..)).carries fun _ => .inl ?_
  have hadv := hset.advertised
  simp only [advertised, mk.injEq] at hadv
  rw [hadv.1, hadv.2.1, updateFeasible, decide_eq_true_eq]
  exact .inr (.inr (.inl (seqnoCompare_succ _)))

theorem updateRouteMetric_carries : Gives (updateRouteMetric env t a) (Carries t) := by
  refine .ite (fun _ => .ite (fun _ => ?_) fun _ => .stays t) fun _ => ?_
  · exact .ite (fun _ => (expired_carries env t a).then routeChanged_settles) fun _ => .some (expired_carries env t a)
  · refine (changeRouteMetric_carries _ _ _ fun _ _ => .inr ?_).then
      (.ite (fun _ => routeChanged_settles) fun _ => .stays _)
    exact UInt16.toUInt16_toUInt32 _

theorem retractNeighbourRoute_carries : Gives (retractNeighbourRoute env t a) (Carries t) := by
  have hret : Carries t (retractRoute env t a) :=
    changeRouteMetric_carries _ _ _ fun _ _ => .inl (infinite_feasible _ _ (by decide))
  exact .ite (fun _ => .ite (fun _ => hret.then routeChanged_settles) fun _ => .some hret) fun _ => .stays t

theorem uninstallRoute_settles (t : Table) (a : Nat) : Settles t (uninstallRoute t a) :=
  setInstalled_settles t a (by simp)

theorem flushRoute_carries : Gives (flushRoute env t a) (Carries t) := by
  unfold flushRoute
  dsimp only
  split
  · exact .none
  rename_i i _
  have hfree : Settles (uninstallRoute t a) (freeRoute env (uninstallRoute t a) a i) :=
    ⟨fun _ => rfl, fun _ => rfl, rfl, fun b hb => Finset.mem_of_mem_erase hb, fun _ => .inl⟩
  refine lostIf_settles.bind fun t1 hlost => releaseSource_settles.mono fun t' hrelease => ?_
  exact ((((uninstallRoute_settles t a).trans hfree).trans hlost).trans hrelease).carries

/-! ## Updates -/

theorem uninstallIf_eq (lost : Bool) (t : Table) (a : Nat) : (uninstallIf lost t a).heap = t.heap ∧
    (uninstallIf lost t a).source = t.source ∧ (uninstallIf lost t a).now = t.now ∧
    (∀ b ≠ a, (uninstallIf lost t a).route b = t.route b) ∧
    (((uninstallIf lost t a).route a).installed → (t.route a).installed ∧ lost = false) := by
  cases lost with
  | false => exact ⟨rfl, rfl, rfl, fun _ _ => rfl, fun hins => ⟨hins, rfl⟩⟩
  | true =>
    refine ⟨rfl, rfl, rfl, fun b hb => update_of_ne hb .., fun hins => ?_⟩
    rw [uninstallIf, if_pos rfl, uninstallRoute, setInstalled_installed, if_pos rfl] at hins
    cases hins

/-- The kernel refuses the metric that an update brings. -/
def RefusedUpdate (env : Env) (r : BabelRoute) (u : Update) : Prop :=
  Refused env r u.refmetric.toUInt32 (env.neighbourCost u.neigh) (addMetric env u)

instance RefusedUpdate.decidable (env : Env) (r : BabelRoute) (u : Update) : Decidable (RefusedUpdate env r u) :=
  inferInstanceAs (Decidable (Refused ..))

/-- What an update leaves in the route it is for, before the routes of the prefix are compared again. -/
theorem applyUpdate_eq (env : Env) (t : Table) (u : Update) (a c : Nat) (feasible : Bool) :
    Readvertises t (applyUpdate env t u a c feasible) a (c, u.seqno,
      if RefusedUpdate env (t.route a) u then (t.route a).refmetric else u.refmetric) := by
  let t1 := setRoute t a fun r =>
    { r with
      src := c
      time := if (feasible || env.keepUnfeasible) ∧ u.refmetric < infinity then t.now else r.time
      seqno := u.seqno }
  have hmet := (Readvertises.of_setRoute t _ rfl).trans (changeRouteMetric_eq env t1 a u.refmetric.toUInt32
    (env.neighbourCost u.neigh) (addMetric env u))
  have hself : t1.route a = { t.route a with
      src := c
      time := if (feasible || env.keepUnfeasible) ∧ u.refmetric < infinity then t.now else (t.route a).time
      seqno := u.seqno } := update_self ..
  have hlast := hmet.trans (.of_setRoute _ ({ · with holdTime := u.holdTime }) rfl)
  refine { hlast with advertised := hlast.advertised.trans (hmet.advertised.trans ?_) }
  rw [hself, UInt16.toUInt16_toUInt32]
  rfl

/-- `update_route` for a known route: the advertisement is put into it, and feasible routes may be installed. -/
theorem updateKnown_settles (hupd : updateKnown env t u a c = some t') :
    ∃ t1, t1.route = (uninstallIf (isLost t u a c) t a).route ∧ t1.heap = t.heap ∧ (∀ d, distance t1 d = distance t d) ∧
      t1.now = t.now ∧ Settles (applyUpdate env t1 u a c (updateFeasible t c u.seqno u.refmetric)) t' := by
  obtain ⟨t1, hret, hupd⟩ := bind_eq_some_iff.1 hupd
  obtain ⟨hsettles, hrt, hheap⟩ := retainSource_settles t1 hret
  obtain ⟨hheap0, hsrc0, hnow0, -, -⟩ := uninstallIf_eq (isLost t u a c) t a
  refine ⟨t1, hrt, hheap.trans hheap0, fun d => ?_, hsettles.now.trans hnow0, ?_⟩
  · rw [hsettles.distance, distance, hsrc0]
    rfl
  · refine Gives.bind routeChanged_settles (fun t3 hchg => ?_) t' hupd
    exact lostIf_settles.bind fun t4 hlost => releaseSource_settles.mono fun _ => (hchg.trans hlost).trans

/-- What an update makes of the advertisement of a route that stays installed. -/
theorem updateKnown_advertised (hlost : isLost t u a c = false) (hupd : updateKnown env t u a c = some t') :
    advertised t' a = (c, u.seqno, if RefusedUpdate env (t.route a) u then (t.route a).refmetric else u.refmetric) := by
  obtain ⟨t1, hrt, -, -, -, hsettles⟩ := updateKnown_settles hupd
  rw [hlost] at hrt
  rw [hsettles.advertised, (applyUpdate_eq env t1 u a c _).advertised, hrt]
  rfl

/-- An update that an installed route can take: a feasible one with a metric that the kernel accepts, one that switches
the source, or the advertisement that the route has. -/
def Tolerable (env : Env) (t : Table) (u : Update) (a c : Nat) : Prop :=
  if updateFeasible t c u.seqno u.refmetric then ¬RefusedUpdate env (t.route a) u
  else c = (t.route a).src → u.seqno = (t.route a).seqno ∧ u.refmetric = (t.route a).refmetric

theorem updateKnown_carries (h : (t.route a).installed → Tolerable env t u a c) :
    Gives (updateKnown env t u a c) (Carries t) := by
  intro t' hupd
  obtain ⟨t1, hrt1, hheap1, hdist1, hnow1, hsettles⟩ := updateKnown_settles hupd
  obtain ⟨-, -, -, hoth, hself⟩ := uninstallIf_eq (isLost t u a c) t a
  have h2 := applyUpdate_eq env t1 u a c (updateFeasible t c u.seqno u.refmetric)
  refine Carries.settles (carries_of_route (a := a) (fun b hb => ?_) (h2.heap.trans hheap1) fun hins => ?_) hsettles
  · rw [h2.others b hb, hrt1, hoth b hb]
  rw [h2.installed, hrt1] at hins
  obtain ⟨hins, hlost⟩ := hself hins
  have htolerable := h hins
  rw [hlost] at hrt1
  rw [hrt1, show uninstallIf false t a = t from rfl] at h2
  rw [Tolerable] at htolerable
  by_cases hfeas : updateFeasible t c u.seqno u.refmetric
  · rw [if_pos hfeas] at htolerable
    rw [if_neg htolerable] at h2
    left
    rw [h2.feasible, updateFeasible_congr (hdist1 _) hnow1]
    exact hfeas
  · -- the route is not lost, so the source is the same
    rw [if_neg hfeas] at htolerable
    have hc : c = (t.route a).src := by
      simpa [isLost, hfeas, hins] using hlost
    obtain ⟨hseqno, hrefmetric⟩ := htolerable hc
    refine .inr ⟨?_, hins⟩
    rw [h2.advertised, hrefmetric, ite_self, hseqno, hc]
    rfl

theorem grown_settles (env : Env) (t : Table) : Settles t (grown env t) := by
  rw [grown]
  split
  · exact { Settles.refl t with }
  · exact .refl t

theorem insertRoute_settles (env : Env) (t : Table) (a : Nat) : Settles t (insertRoute env t a).1 := by
  cases hres : findRouteSlot t (t.src a).pfx (t.src a).plen with
  | missing n =>
    rw [insertRoute_missing env hres]
    split
    · exact grown_settles env t
    · exact { grown_settles env t with }
  | found i =>
    rw [insertRoute_found env hres]
    exact { Settles.refl t with }

theorem newRoute_carries (env : Env) (t : Table) (u : Update) (c : Nat) : Carries t (newRoute env t u c) := by
  intro b hb hins
  by_cases hbrk : b = t.brk
  · rw [hbrk, (newRoute_allocated env t u c).installed] at hins
    cases hins
  rw [(newRoute_allocated env t u c).route b hbrk] at hins
  refine .inr ⟨Finset.mem_of_mem_insert_of_ne hb hbrk, ?_, hins⟩
  rw [advertised, (newRoute_allocated env t u c).route b hbrk]
  rfl

theorem updateNew_carries : Gives (updateNew env t u c) (Carries t) := by
  refine .ite (fun _ => .stays t) fun _ => .ite (fun _ => .stays t) fun _ => .ite (fun _ => .stays t) fun _ => ?_
  refine retainSource_settles.bind fun t1 ⟨_, hrt1, hheap1⟩ => ?_
  have hins : Carries t (insertRoute env (newRoute env t1 u c) t.brk).1 :=
    ((newRoute_carries env t1 u c).of_same ⟨hrt1, hheap1⟩).settles (insertRoute_settles env _ _)
  refine .ite (fun _ => hins.then considerRoute_settles) fun _ => .some (hins.settles ?_)
  exact ⟨fun _ => rfl, fun _ => rfl, rfl, fun b hb => Finset.mem_of_mem_erase hb, fun _ => .inl⟩

theorem findSource_same (env : Env) (t : Table) (id : UInt64) (pfx : BitVec 128) (plen : UInt8) (seqno : UInt16) :
    SameRoutes t (findSource env t id pfx plen seqno).1 := by
  rw [findSource]
  split
  · exact ⟨rfl, rfl⟩
  split <;> exact ⟨rfl, rfl⟩

theorem updateSrc_same (env : Env) (t : Table) (u : Update) (route : Option Nat) :
    SameRoutes t (updateSrc env t u route).1 := by
  rw [updateSrc]
  split
  · exact ⟨rfl, rfl⟩
  · exact findSource_same ..

theorem updateRoute_known (hpass : Passes env u) (hfind : findRoute t u.pfx u.plen u.neigh u.nexthop = some a)
    (hsrc : updateSrc env t u (some a) = (t1, some c)) : updateRoute env t u = updateKnown env t1 u a c := by
  rw [updateRoute, if_neg hpass.1, if_neg hpass.2.1, if_neg (UInt32.not_le.2 hpass.2.2), hfind]
  dsimp only
  rw [hsrc]

/-- The update, if it is for an installed route, is one that the route can take. -/
def Accepts (env : Env) (t : Table) (u : Update) : Prop :=
  Passes env u → ∀ a, findRoute t u.pfx u.plen u.neigh u.nexthop = some a → (t.route a).installed →
    ∀ t' c, updateSrc env t u (some a) = (t', some c) → Tolerable env t' u a c

theorem updateRoute_carries (h : Accepts env t u) : Gives (updateRoute env t u) (Carries t) := by
  refine .ite (fun _ => .stays t) fun h1 => .ite (fun _ => .stays t) fun h2 => .ite (fun _ => .stays t) fun h3 => ?_
  have hsame := updateSrc_same env t u (findRoute t u.pfx u.plen u.neigh u.nexthop)
  dsimp only
  split
  · rename_i t1 hsrc
    rw [hsrc] at hsame
    exact .some hsame.carries
  · rename_i t1 c a hsrc hfind
    rw [hsrc] at hsame
    rw [hfind] at hsrc
    refine (updateKnown_carries fun hins => ?_).mono fun _ h' => h'.of_same hsame
    exact h ⟨h1, h2, UInt32.not_le.1 h3⟩ a hfind (hsame.1 ▸ hins) t1 c hsrc
  · rename_i t1 c hsrc hfind
    rw [hsrc] at hsame
    exact updateNew_carries.mono fun _ h' => h'.of_same hsame

/-! ## Runs -/

theorem forRoute_carries {f : Table → Nat → Option Table} (hf : Gives (f t a) (Carries t)) :
    Gives (forRoute t a f) (Carries t) := .ite (fun _ => hf) fun _ => .stays t

theorem updateSource_same (t : Table) (c : Nat) (seqno metric : UInt16) :
    SameRoutes t (updateSource t c seqno metric) := by
  rw [updateSource]
  split <;> exact ⟨rfl, rfl⟩

theorem sendUpdate_same (t : Table) (pfx : BitVec 128) (plen : UInt8) (interferes : Bool) (diversityFactor : Nat) :
    SameRoutes t (sendUpdate t pfx plen interferes diversityFactor) := by
  rw [sendUpdate]
  split
  · exact updateSource_same ..
  · exact ⟨rfl, rfl⟩

theorem expireSource_same (t : Table) (c : Nat) : SameRoutes t (expireSource t c) := by
  rw [expireSource]
  split <;> split <;> exact ⟨rfl, rfl⟩

theorem foldl_expireSource_same : ∀ (l : List Nat) (t : Table), SameRoutes t (l.foldl expireSource t)
  | [], _ => ⟨rfl, rfl⟩
  | c :: l, t => by
    obtain ⟨hrt, hheap⟩ := foldl_expireSource_same l (expireSource t c)
    exact ⟨hrt.trans (expireSource_same t c).1, hheap.trans (expireSource_same t c).2⟩

/-- An update of the run is one that the installed routes can take. -/
def Op.Accepted (s : Option Table) (op : Op) : Prop := ∀ t ∈ s, ∀ env u, op = .update env u → Accepts env t u

theorem step_carries {op : Op} (h : op.Accepted (some t)) : Gives (op.step (some t)) (Carries t) := by
  cases op with
  | update env u => exact updateRoute_carries (h t rfl env u rfl)
  | metric env a => exact forRoute_carries updateRouteMetric_carries
  | retract env a => exact forRoute_carries retractNeighbourRoute_carries
  | flush env a => exact forRoute_carries flushRoute_carries
  | uninstall a =>
    exact forRoute_carries (a := a) (f := fun t a => some (uninstallRoute t a))
      (.some (uninstallRoute_settles t a).carries)
  | xroute pfx plen =>
    refine .some ?_
    rw [xrouteAdded]
    split
    · exact (uninstallRoute_settles t _).carries
    · exact (Settles.refl t).carries
  | send pfx plen interferes diversityFactor =>
    exact .some (sendUpdate_same t pfx plen interferes diversityFactor).carries
  | expire => exact .some (foldl_expireSource_same t.srcs t).carries
  | clock now => exact .some (SameRoutes.carries ⟨rfl, rfl⟩)

/-- A run, with the routes whose advertisement has been feasible since it came. -/
structure Tracked where
  table : Option Table
  satisfied : Nat → Bool

/-- A route satisfies the condition after a step if it is feasible then, or its advertisement is the same and satisfied
it before. -/
def stillSatisfied (satisfied : Nat → Bool) : Option Table → Option Table → Nat → Bool
  | some t, some t', a =>
    routeFeasible t' a || (decide (a ∈ t.heap) && decide (advertised t' a = advertised t a) && satisfied a)
  | _, _, _ => false

def Tracked.step (s : Tracked) (op : Op) : Tracked where
  table := op.step s.table
  satisfied := stillSatisfied s.satisfied s.table (op.step s.table)

/-- Every installed route with a finite metric satisfies the feasibility condition, or is the advertisement that last
did. -/
def Tracked.LoopFree (s : Tracked) : Prop :=
  ∀ t ∈ s.table, ∀ a ∈ t.heap, (t.route a).installed → routeMetric (t.route a) < infinity.toNat → s.satisfied a

/-- The same for infinite metrics, that another cost of the neighbour can make finite. -/
def Tracked.Satisfied (s : Tracked) : Prop := ∀ t ∈ s.table, ∀ a ∈ t.heap, (t.route a).installed → s.satisfied a

theorem satisfied_step (s : Tracked) (op : Op) (h : s.Satisfied) (hop : op.Accepted s.table) :
    (s.step op).Satisfied := by
  obtain ⟨table, satisfied⟩ := s
  intro t' ht' a ha hins
  change op.step table = some t' at ht'
  cases table with
  | none => cases ht'
  | some t =>
    change stillSatisfied satisfied (some t) (op.step (some t)) a = true
    rw [ht', stillSatisfied]
    simp only [or_eq_true, and_eq_true, decide_eq_true_eq]
    refine (step_carries hop t' ht' a ha hins).imp_right fun ⟨hheap, hadv, hbef⟩ => ?_
    exact ⟨⟨hheap, hadv⟩, h t rfl a hheap hbef⟩

/-- An infeasible update from the source of an installed route changes the route, unless it repeats what the route
has. -/
theorem infeasible_update (hpass : Passes env u) (hfind : findRoute t u.pfx u.plen u.neigh u.nexthop = some a)
    (hsame : (t.source (t.route a).src).id = u.routerId) (hupd : updateRoute env t u = some t') :
    ((t'.route a).seqno = (t.route a).seqno ∧ (t'.route a).refmetric = (t.route a).refmetric) ↔
      u.seqno = (t.route a).seqno ∧ (u.refmetric = (t.route a).refmetric ∨ RefusedUpdate env (t.route a) u) := by
  have hsrc : updateSrc env t u (some a) = (t, some (t.route a).src) := by
    rw [updateSrc, filter_some, if_pos (by simpa using hsame)]
  rw [updateRoute_known hpass hfind hsrc] at hupd
  have hadv := updateKnown_advertised (by simp [isLost]) hupd
  simp only [advertised, mk.injEq] at hadv
  rw [hadv.2.1, hadv.2.2]
  refine and_congr_right fun _ => ?_
  split_ifs with href
  · exact iff_of_true rfl (.inr href)
  · exact (or_iff_left href).symm

/-- If every update for an installed route is one that the route can take, no installed route with a finite metric
breaks the feasibility condition. An infeasible update for an installed route from the same source leaves its sequence
number and its reference metric as they are only if it repeats the number, and the metric unless the kernel refuses
it. -/
theorem babelFeasible_runs (route : Nat → BabelRoute) (source : Nat → Source) (now : Int) (ops : List Op) :
    (Meets Tracked.step (fun s op => op.Accepted s.table) ops ⟨some (emptyTable route source now), fun _ => false⟩ →
      Always Tracked.step Tracked.LoopFree ops ⟨some (emptyTable route source now), fun _ => false⟩) ∧
    ∀ (env : Env) (t t' : Table) (u : Update) (a : Nat), Passes env u →
      findRoute t u.pfx u.plen u.neigh u.nexthop = some a → (t.route a).installed →
      (t.source (t.route a).src).id = u.routerId → ¬updateFeasible t (t.route a).src u.seqno u.refmetric →
      updateRoute env t u = some t' →
      (((t'.route a).seqno = (t.route a).seqno ∧ (t'.route a).refmetric = (t.route a).refmetric) ↔
        u.seqno = (t.route a).seqno ∧ (u.refmetric = (t.route a).refmetric ∨ RefusedUpdate env (t.route a) u)) := by
  constructor
  · intro hmeets
    have hstart : Tracked.Satisfied ⟨some (emptyTable route source now), fun _ => false⟩ := by
      rintro _ ⟨⟩ a ha
      exact absurd ha (Finset.notMem_empty a)
    refine (always_of_meets satisfied_step hstart hmeets).mono fun s hs t ht a ha hins _ => ?_
    exact hs t ht a ha hins
  · intro env t t' u a hpass hfind _ hsame _ hupd
    exact infeasible_update hpass hfind hsame hupd

/-- A neighbour of cost 96, no filters, and all memory there is. -/
def enoughMemory : Env := { noMemory with realloc := true }

/-- The update after `firstUpdate` has the same number and a larger metric. -/
def worseUpdate : Update := { firstUpdate with refmetric := 300 }

/-- The first update is installed and its metric sent, so that the second one is not feasible. It is taken over all the
same. -/
theorem babelFeasible_runs_worse : ¬Always Tracked.step Tracked.LoopFree
      [.update enoughMemory firstUpdate, .send firstUpdate.pfx firstUpdate.plen true 256,
        .update enoughMemory worseUpdate]
      ⟨some zeroTable, fun _ => false⟩ := by
  rintro ⟨-, -, -, hlast⟩
  let s := ((Tracked.step ⟨some zeroTable, fun _ => false⟩ (.update enoughMemory firstUpdate)).step
    (.send firstUpdate.pfx firstUpdate.plen true 256)).step (.update enoughMemory worseUpdate)
  have hend : ∀ t ∈ s.table, 1 ∈ t.heap ∧ (t.route 1).installed ∧ routeMetric (t.route 1) < infinity.toNat := by
    decide
  cases htab : s.table with
  | none => exact absurd htab (by decide)
  | some t =>
    obtain ⟨hheap, hins, hmet⟩ := hend t htab
    exact absurd (hlast t htab 1 hheap hins hmet) (by decide)

/-- The update after `firstUpdate` has a later number. -/
def laterUpdate : Update := { firstUpdate with seqno := 8, refmetric := 300 }

/-- With the later number the larger metric is feasible. -/
theorem babelFeasible_runs_later : Always Tracked.step Tracked.LoopFree
      [.update enoughMemory firstUpdate, .send firstUpdate.pfx firstUpdate.plen true 256,
        .update enoughMemory laterUpdate]
      ⟨some zeroTable, fun _ => false⟩ := by
  refine (babelFeasible_runs _ _ _ _).1 ⟨?_, ?_, ?_, trivial⟩
  · rintro _ ⟨⟩ _ _ ⟨⟩ - a hfind
    have hnone : findRoute zeroTable firstUpdate.pfx firstUpdate.plen firstUpdate.neigh firstUpdate.nexthop = none :=
      rfl
    cases hnone.symm.trans hfind
  · rintro _ - _ _ ⟨⟩
  · have hfind : ∀ t ∈ ((Tracked.step ⟨some zeroTable, fun _ => false⟩ (.update enoughMemory firstUpdate)).step
        (.send firstUpdate.pfx firstUpdate.plen true 256)).table,
        findRoute t laterUpdate.pfx laterUpdate.plen laterUpdate.neigh laterUpdate.nexthop = some 1 ∧
        (updateSrc enoughMemory t laterUpdate (some 1)).2 = some 0 ∧
        updateFeasible (updateSrc enoughMemory t laterUpdate (some 1)).1 0 laterUpdate.seqno laterUpdate.refmetric ∧
        ¬RefusedUpdate enoughMemory ((updateSrc enoughMemory t laterUpdate (some 1)).1.route 1) laterUpdate := by
      decide
    rintro t ht _ _ ⟨⟩ - a ha - t' c hsrc
    obtain ⟨hrt, hsource, hfeas, hacc⟩ := hfind t ht
    rw [hrt] at ha
    cases ha
    rw [hsrc] at hsource hfeas hacc
    cases hsource
    rw [Tolerable, if_pos hfeas]
    exact hacc

end Tarpan.Babeld
