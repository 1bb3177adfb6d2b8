/-
The routes and sources of Babel (babeld/route.c, babeld/source.c): slots in the order of the prefixes, each with the
routes of one prefix and the installed one first, and sources with their feasibility distances and reference counts.
-/
import Tarpan.Base.BinarySearch
import Mathlib.Data.Finset.Basic

namespace Tarpan.Babeld

open Base Function

def infinity : UInt16 := 0xFFFF
def sourceGcTime : Int := 200

def seqnoCompare (s1 s2 : UInt16) : Int := if s1 = s2 then 0 else if (s2 - s1) &&& 0x8000 ≠ 0 then 1 else -1

/-- `struct source`. Prefixes are 16 octets, which `memcmp` compares as it compares numbers. -/
structure Source where
  id : UInt64
  pfx : BitVec 128
  plen : UInt8
  seqno : UInt16
  metric : UInt16
  routeCount : UInt16
  time : Int
  deriving DecidableEq

/-- `struct babel_route`, with the addresses of its source and its neighbour. -/
structure BabelRoute where
  src : Nat
  refmetric : UInt16
  cost : UInt16
  addMetric : UInt16
  seqno : UInt16
  neigh : Nat
  nexthop : BitVec 128
  time : Int
  holdTime : UInt16
  installed : Bool
  deriving DecidableEq

/-- The memory of the routes and the sources: the slots with their lists, the routes that are allocated, the list of
sources, and the clock. New objects start at `brk`. The room for slots is an `int`, which 2^30 slots fill. -/
structure Table where
  slots : List (List Nat)
  maxRouteSlots : Nat
  route : Nat → BabelRoute
  heap : Finset Nat
  source : Nat → Source
  srcs : List Nat
  brk : Nat
  now : Int

/-- The configuration, and what the rest of the system answers during one operation: the filter, the cost of the
neighbours, the redistributed routes, the kernel and the allocator. -/
structure Env where
  myid : UInt64
  martianPrefix : BitVec 128 → UInt8 → Bool
  inputFilter : UInt64 → BitVec 128 → UInt8 → Nat → UInt32
  neighbourCost : Nat → UInt32
  findXroute : BitVec 128 → UInt8 → Option UInt16
  keepUnfeasible : Bool
  allowDuplicates : Int
  kernelAdd : Bool
  kernelModify : Bool
  kernelMetric : Bool
  realloc : Bool
  mallocRoute : Bool
  mallocSource : Bool

/-! ## Sources -/

section
variable (t : Table) (pfx : BitVec 128) (plen : UInt8)

def setSource (c : Nat) (f : Source → Source) : Table := { t with source := update t.source c (f (t.source c)) }

/-- `find_source`, that creates the source. -/
def findSource (env : Env) (t : Table) (id : UInt64) (pfx : BitVec 128) (plen : UInt8) (seqno : UInt16) :
    Table × Option Nat :=
  match t.srcs.find? fun c => (t.source c).id = id ∧ (t.source c).plen = plen ∧ (t.source c).pfx = pfx with
  | some c => (t, some c)
  | none =>
    if env.mallocSource then
      ({ t with
          source := update t.source t.brk ⟨id, pfx, plen, seqno, infinity, 0, t.now⟩
          srcs := t.brk :: t.srcs
          brk := t.brk + 1 }, some t.brk)
    else (t, none)

def retainSource (c : Nat) : Option Table :=
  if (t.source c).routeCount < 0xFFFF then
    some (setSource t c fun src => { src with routeCount := src.routeCount + 1 })
  else none

def releaseSource (c : Nat) : Option Table :=
  if 0 < (t.source c).routeCount then
    some (setSource t c fun src => { src with routeCount := src.routeCount - 1 })
  else none

def updateSource (c : Nat) (seqno metric : UInt16) : Table :=
  if infinity ≤ metric then t
  else
    setSource t c fun src =>
      if src.time < t.now - sourceGcTime ∨ seqnoCompare src.seqno seqno < 0 ∨
        (src.seqno = seqno ∧ metric < src.metric) then
        { src with seqno := seqno, metric := metric, time := t.now }
      else { src with time := t.now }

/-- One source in `expire_sources`, with `flush_source`. -/
def expireSource (c : Nat) : Table :=
  let t := if t.now < (t.source c).time then setSource t c ({ · with time := t.now }) else t
  if (t.source c).time < t.now - sourceGcTime ∧ (t.source c).routeCount = 0 then { t with srcs := t.srcs.erase c }
  else t

def expireSources : Table := t.srcs.foldl expireSource t

/-- `update_feasible`, for a source. -/
def updateFeasible (c : Nat) (seqno refmetric : UInt16) : Bool :=
  (t.source c).time < t.now - sourceGcTime ∨ infinity ≤ refmetric ∨ 0 < seqnoCompare seqno (t.source c).seqno ∨
    ((t.source c).seqno = seqno ∧ refmetric < (t.source c).metric)

/-! ## Slots -/

def routeCompare (a : Nat) : Int :=
  let src := t.source (t.route a).src
  if pfx < src.pfx then -1
  else if src.pfx < pfx then 1
  else if plen < src.plen then -1
  else if src.plen < plen then 1
  else 0

/-- The comparison with the first route of a slot. -/
def slotCompare (m : Nat) : Int :=
  match (t.slots[m]?).bind List.head? with
  | some a => routeCompare t pfx plen a
  | none => 0

def findRouteSlot : SearchResult :=
  if t.slots.length < 1 then .missing 0
  else binarySearch (slotCompare t pfx plen) t.slots.length 0 (t.slots.length - 1)

def slotRoutes : List Nat :=
  match findRouteSlot t pfx plen with
  | .found i => t.slots.getD i []
  | .missing _ => []

def findRoute (neigh : Nat) (nexthop : BitVec 128) : Option Nat :=
  (slotRoutes t pfx plen).find? fun a => (t.route a).neigh = neigh ∧ (t.route a).nexthop = nexthop

def findInstalledRoute : Option Nat := (slotRoutes t pfx plen).head?.filter fun a => (t.route a).installed

end

section
variable (env : Env) (t : Table)

/-- `insert_route`, with no result if the table cannot grow. -/
def insertRoute (a : Nat) : Table × Bool :=
  let src := t.source (t.route a).src
  match findRouteSlot t src.pfx src.plen with
  | .missing n =>
    let t := if t.maxRouteSlots ≤ t.slots.length ∧ env.realloc then
        { t with maxRouteSlots := if t.maxRouteSlots < 1 then 8 else 2 * t.maxRouteSlots }
      else t
    if t.maxRouteSlots ≤ t.slots.length then (t, false)
    else ({ t with slots := t.slots.take n ++ [a] :: t.slots.drop n }, true)
  | .found i => ({ t with slots := t.slots.modify i (· ++ [a]) }, true)

/-! ## Metrics and feasibility -/

def routeMetric (r : BabelRoute) : Nat := min (r.refmetric.toNat + r.cost.toNat + r.addMetric.toNat) infinity.toNat

def routeMetricNoninterfering (diversityFactor : Nat) (r : BabelRoute) : Nat :=
  min (max (r.refmetric.toNat + (diversityFactor * r.cost.toNat + 128) / 256 + r.addMetric.toNat)
    (r.refmetric.toNat + 1))
    infinity.toNat

/-- `metric_to_kernel` tells finite metrics from infinite ones. -/
def metricToKernel (metric : Nat) : Bool := metric < infinity.toNat
def routeFeasible (a : Nat) : Bool := updateFeasible t (t.route a).src (t.route a).seqno (t.route a).refmetric
def routeExpired (a : Nat) : Bool := (t.route a).time < t.now - (t.route a).holdTime.toNat

def setRoute (a : Nat) (f : BabelRoute → BabelRoute) : Table := { t with route := update t.route a (f (t.route a)) }

def changeRouteMetric (a : Nat) (refmetric cost add : UInt32) : Table :=
  let newmetric := min (refmetric + cost + add).toNat infinity.toNat
  if (t.route a).installed ∧ metricToKernel (routeMetric (t.route a)) ≠ metricToKernel newmetric ∧
    ¬env.kernelMetric then t
  else
    setRoute t a ({ · with refmetric := refmetric.toUInt16, cost := cost.toUInt16, addMetric := add.toUInt16 })

def retractRoute (a : Nat) : Table := changeRouteMetric env t a infinity.toUInt32 infinity.toUInt32 0

/-- One turn of the loop of `find_best_route`, for feasible routes. -/
def betterRoute (best r : Nat) : Nat :=
  if ¬routeExpired t r ∧ routeFeasible t r ∧ routeMetric (t.route r) < routeMetric (t.route best) then r else best

/-- `find_best_route`, for feasible routes. The first one is taken as it is. -/
def findBestRoute (pfx : BitVec 128) (plen : UInt8) : Option Nat :=
  match slotRoutes t pfx plen with
  | [] => none
  | a :: rest => some (rest.foldl (betterRoute t) a)

/-! ## Installing -/

def setInstalled (a : Nat) (installed : Bool) : Table := setRoute t a ({ · with installed })

def moveInstalledRoute (a i : Nat) : Table :=
  { t with slots := t.slots.modify i fun s => if s.head? = some a then s else a :: s.erase a }

/-- The installed route goes to the head of its slot. There is no result where the slot is not found. -/
def moveToHead (a : Nat) : Option Table :=
  let src := t.source (t.route a).src
  match findRouteSlot t src.pfx src.plen with
  | .found i => some (moveInstalledRoute t a i)
  | .missing _ => none

def installRoute (a : Nat) : Option Table :=
  if (t.route a).installed then some t
  else
    let src := t.source (t.route a).src
    match slotRoutes t src.pfx src.plen with
    | [] => none
    | b :: _ =>
      if b ≠ a ∧ (t.route b).installed then some t
      else if env.kernelAdd then moveToHead (setInstalled t a true) a
      else some t

def uninstallRoute (a : Nat) : Table := setInstalled t a false

def switchRoutes (old : Option Nat) (new : Nat) : Option Table :=
  match old with
  | none => installRoute env t new
  | some old =>
    if ¬(t.route old).installed then some t
    else if env.kernelModify then moveToHead (setInstalled (setInstalled t old false) new true) new
    else some t

/-- `consider_route` up to the decision. -/
def worthInstalling (a : Nat) (installed : Option Nat) : Bool :=
  match installed with
  | none => true
  | some b =>
    routeMetric (t.route a) < infinity.toNat ∧
      (infinity.toNat ≤ routeMetric (t.route b) ∨ routeMetric (t.route a) + 64 ≤ routeMetric (t.route b))

/-- A redistributed route keeps those of Babel out. -/
def barred (pfx : BitVec 128) (plen : UInt8) : Bool :=
  match env.findXroute pfx plen with
  | some metric => env.allowDuplicates < 0 ∨ env.allowDuplicates ≤ metric.toNat
  | none => false

def considerRoute (a : Nat) : Option Table :=
  let src := t.source (t.route a).src
  if (t.route a).installed then some t
  else if ¬routeFeasible t a then some t
  else if barred env src.pfx src.plen then some t
  else
    let installed := findInstalledRoute t src.pfx src.plen
    if worthInstalling t a installed then switchRoutes env t installed a else some t

def routeChanged (a oldmetric : Nat) : Option Table :=
  let src := t.source (t.route a).src
  if (t.route a).installed then
    if oldmetric < routeMetric (t.route a) then
      match findBestRoute t src.pfx src.plen with
      | some b =>
        if (routeMetric (t.route b) : Int) ≤ routeMetric (t.route a) - 96 then considerRoute env t b else some t
      | none => some t
    else some t
  else considerRoute env t a

def routeLost (pfx : BitVec 128) (plen : UInt8) : Option Table :=
  match findBestRoute t pfx plen with
  | some b => considerRoute env t b
  | none => some t

/-! ## Operations -/

/-- The slot without a route, and no slot without routes. -/
def removeFromSlot (slots : List (List Nat)) (i a : Nat) : List (List Nat) :=
  if (slots.getD i []).erase a = [] then slots.eraseIdx i else slots.modify i (·.erase a)

/-- The size of the array after the first route of a slot was freed. -/
def shrunkSlots (maxRouteSlots slots : Nat) : Nat :=
  if slots = 0 then 0
  else if 8 < maxRouteSlots ∧ slots < maxRouteSlots / 4 ∧ env.realloc then maxRouteSlots / 2
  else maxRouteSlots

/-- `flush_route` for the array and the memory. -/
def freeRoute (a i : Nat) : Table :=
  let slots := removeFromSlot t.slots i a
  { t with
    slots
    heap := t.heap.erase a
    maxRouteSlots := if (t.slots.getD i []).head? = some a then shrunkSlots env t.maxRouteSlots slots.length
      else t.maxRouteSlots }

/-- What follows if the flushed or changed route was the installed one. -/
def lostIf (lost : Bool) (src : Source) : Option Table := if lost then routeLost env t src.pfx src.plen else some t

end

section
variable (env : Env) (t : Table) (u : Update)

def flushRoute (a : Nat) : Option Table :=
  let c := (t.route a).src
  let lost := (t.route a).installed
  let t := uninstallRoute t a
  match findRouteSlot t (t.source c).pfx (t.source c).plen with
  | .missing _ => none
  | .found i => do
    let t ← lostIf env (freeRoute env t a i) lost (t.source c)
    releaseSource t c

/-- The metric of a route after a change, and what follows from it. -/
def changedFrom (a oldmetric : Nat) : Option Table :=
  if routeMetric (t.route a) ≠ oldmetric then routeChanged env t a oldmetric else some t

def updateRouteMetric (a : Nat) : Option Table :=
  let r := t.route a
  let oldmetric := routeMetric r
  let src := t.source r.src
  if routeExpired t a then
    if r.refmetric < infinity then
      let t := retractRoute env (setRoute t a ({ · with seqno := src.seqno + 1 })) a
      if oldmetric < infinity.toNat then routeChanged env t a oldmetric else some t
    else some t
  else
    let t := changeRouteMetric env t a r.refmetric.toUInt32 (env.neighbourCost r.neigh)
      (env.inputFilter src.id src.pfx src.plen r.neigh)
    changedFrom env t a oldmetric

/-- One route in `retract_neighbour_routes`. -/
def retractNeighbourRoute (a : Nat) : Option Table :=
  let oldmetric := routeMetric (t.route a)
  if (t.route a).refmetric ≠ infinity then
    let t := retractRoute env t a
    if oldmetric ≠ infinity.toNat then routeChanged env t a oldmetric else some t
  else some t

/-- An update that was received. -/
structure Update where
  routerId : UInt64
  pfx : BitVec 128
  plen : UInt8
  seqno : UInt16
  refmetric : UInt16
  interval : UInt16
  neigh : Nat
  nexthop : BitVec 128

def Update.holdTime : UInt16 := .ofNat (max (4 * u.interval.toNat / 100 + u.interval.toNat / 50) 15)

/-- The filter's metric for an update. -/
def addMetric : UInt32 := env.inputFilter u.routerId u.pfx u.plen u.neigh

/-- The installed route switches to a source for which the update is not feasible. -/
def isLost (a c : Nat) : Bool := !updateFeasible t c u.seqno u.refmetric && (t.route a).installed && c ≠ (t.route a).src

/-- Such a route is uninstalled first. -/
def uninstallIf (lost : Bool) (t : Table) (a : Nat) : Table := if lost then uninstallRoute t a else t

/-- What an update sets in a route that is in the table. -/
def applyUpdate (a c : Nat) (feasible : Bool) : Table :=
  let t := setRoute t a fun r =>
    { r with
      src := c
      time := if (feasible || env.keepUnfeasible) ∧ u.refmetric < infinity then t.now else r.time
      seqno := u.seqno }
  setRoute (changeRouteMetric env t a u.refmetric.toUInt32 (env.neighbourCost u.neigh) (addMetric env u)) a
    ({ · with holdTime := u.holdTime })

/-- `update_route` for a route that is in the table. -/
def updateKnown (a c : Nat) : Option Table := do
  let oldsrc := (t.route a).src
  let lost := isLost t u a c
  let t1 ← retainSource (uninstallIf lost t a) c
  let t2 := applyUpdate env t1 u a c (updateFeasible t c u.seqno u.refmetric)
  let t3 ← routeChanged env t2 a (routeMetric (t.route a))
  let t4 ← lostIf env t3 lost (t3.source oldsrc)
  releaseSource t4 oldsrc

def newRoute (c : Nat) : Table :=
  { t with
    route := update t.route t.brk
      { src := c, refmetric := u.refmetric, cost := (env.neighbourCost u.neigh).toUInt16
        addMetric := (addMetric env u).toUInt16, seqno := u.seqno, neigh := u.neigh, nexthop := u.nexthop, time := t.now
        holdTime := u.holdTime, installed := false }
    heap := insert t.brk t.heap
    brk := t.brk + 1 }

/-- `update_route` for a route that is not in the table. -/
def updateNew (c : Nat) : Option Table :=
  if infinity ≤ u.refmetric then some t
  else if ¬updateFeasible t c u.seqno u.refmetric ∧ ¬env.keepUnfeasible then some t
  else if ¬env.mallocRoute then some t
  else do
    let a := t.brk
    let t ← retainSource t c
    let (t, inserted) := insertRoute env (newRoute env t u c) a
    if inserted then considerRoute env t a else some { t with heap := t.heap.erase a }

/-- The source of an update. -/
def updateSrc (route : Option Nat) : Table × Option Nat :=
  match route.filter fun a => (t.source (t.route a).src).id = u.routerId with
  | some a => (t, some (t.route a).src)
  | none => findSource env t u.routerId u.pfx u.plen u.seqno

def updateRoute : Option Table :=
  if u.routerId = env.myid then some t
  else if env.martianPrefix u.pfx u.plen then some t
  else if infinity.toUInt32 ≤ addMetric env u then some t
  else
    let route := findRoute t u.pfx u.plen u.neigh u.nexthop
    match updateSrc env t u route, route with
    | (t, none), _ => some t
    | (t, some c), some a => updateKnown env t u a c
    | (t, some c), none => updateNew env t u c

/-- What `flushupdates` does to the source of the installed route of a prefix. -/
def sendUpdate (pfx : BitVec 128) (plen : UInt8) (interferes : Bool) (diversityFactor : Nat) : Table :=
  match findInstalledRoute t pfx plen with
  | some a =>
    let r := t.route a
    let metric := if interferes then routeMetric r else routeMetricNoninterfering diversityFactor r
    updateSource t r.src r.seqno (.ofNat metric)
  | none => t

/-- What `xroute_add_new_route` does to the installed route of a prefix. -/
def xrouteAdded (pfx : BitVec 128) (plen : UInt8) : Table :=
  match findInstalledRoute t pfx plen with
  | some a => uninstallRoute t a
  | none => t

end

/-! ## Steps -/

/-- What happens to the table. The loops of `update_neighbour_metric`, `update_interface_metric`,
`retract_neighbour_routes`, `flush_neighbour_routes`, `flush_interface_routes`, `flush_all_routes` and `expire_routes`
take one such step for one route of the table after the other. Updates go out after a step: no operation reads the
feasibility distances once it has sent one. -/
inductive Op where
  | update (env : Env) (u : Update)
  | metric (env : Env) (a : Nat)
  | retract (env : Env) (a : Nat)
  | flush (env : Env) (a : Nat)
  | uninstall (a : Nat)
  | xroute (pfx : BitVec 128) (plen : UInt8)
  | send (pfx : BitVec 128) (plen : UInt8) (interferes : Bool) (diversityFactor : Nat)
  | expire
  | clock (now : Int)

/-- A step for a route of the table. -/
def forRoute (t : Table) (a : Nat) (f : Table → Nat → Option Table) : Option Table :=
  if a ∈ t.heap then f t a else some t

/-- One step; there is none from a failed assertion. -/
def Op.step (s : Option Table) (op : Op) : Option Table :=
  s.bind fun t =>
    match op with
    | .update env u => updateRoute env t u
    | .metric env a => forRoute t a (updateRouteMetric env)
    | .retract env a => forRoute t a (retractNeighbourRoute env)
    | .flush env a => forRoute t a (flushRoute env)
    | .uninstall a => forRoute t a fun t a => some (uninstallRoute t a)
    | .xroute pfx plen => some (xrouteAdded t pfx plen)
    | .send pfx plen interferes diversityFactor => some (sendUpdate t pfx plen interferes diversityFactor)
    | .expire => some (expireSources t)
    | .clock now => some { t with now }

def emptyTable (route : Nat → BabelRoute) (source : Nat → Source) (now : Int) : Table :=
  { slots := [], maxRouteSlots := 0, route, heap := ∅, source, srcs := [], brk := 0, now }

end Tarpan.Babeld
