/-
Installation of a routing table (ospfd/ospf_route.c, ospfd/ospf_zebra.c). Zebra is sent only what differs from the table
before, so that what it holds depends on the tests that tell which routes are the same.
-/
import Tarpan.Base.Entries
import Tarpan.Lib.Prefix

namespace Tarpan.Ospfd

open Base Lib Function
open Option (bind_none bind_some isSome_some mem_def none_or or_none some)

/-- `OSPF_DESTINATION_*`. -/
inductive DestinationType where
  | router | network | discard
  deriving DecidableEq

/-- `OSPF_PATH_*`. -/
inductive PathType where
  | intraArea | interArea | type1External | type2External
  deriving DecidableEq

/-- `struct ospf_path`. -/
@[ext]
structure OspfPath where
  nexthop : UInt32
  ifindex : UInt32
  deriving DecidableEq

/-- `struct ospf_route`. -/
structure OspfRoute where
  type : DestinationType
  pathType : PathType
  paths : List OspfPath
  cost : UInt32
  /-- `u.ext.type2_cost`. -/
  type2Cost : UInt32 := 0

/-- A `struct route_table` of routes, for which nodes without a route play no part. -/
abbrev RoutingTable := Entries (Prefix .ip) OspfRoute

/-- What the messages to zebra depend on: `zclient->redist[ZEBRA_ROUTE_OSPF]` and the configured distances. -/
structure ZebraConfig where
  redist : Bool
  distanceIntra : UInt8 := 0
  distanceInter : UInt8 := 0
  distanceExternal : UInt8 := 0
  distanceAll : UInt8 := 0

def ospfDistanceApply (cfg : ZebraConfig) (or : OspfRoute) : UInt8 :=
  if cfg.distanceIntra ≠ 0 ∧ or.pathType = .intraArea then cfg.distanceIntra
  else if cfg.distanceInter ≠ 0 ∧ or.pathType = .interArea then cfg.distanceInter
  else if cfg.distanceExternal ≠ 0 ∧ (or.pathType = .type1External ∨ or.pathType = .type2External) then
    cfg.distanceExternal
  else cfg.distanceAll

/-- `ZEBRA_NEXTHOP_*`. -/
inductive ZapiNexthop where
  | ipv4Ifindex (gate ifindex : UInt32)
  | ipv4 (gate : UInt32)
  | ifindex (ifindex : UInt32)
  deriving DecidableEq

/-- A route as it is sent. A distance of zero is not sent. -/
structure ZapiRoute where
  blackhole : Bool
  nexthops : List ZapiNexthop
  distance : UInt8
  metric : Option UInt32
  deriving DecidableEq

/-- The routes that zebra holds from OSPF. A new one for a prefix takes the place of the one before. -/
abbrev Zebra := Prefix .ip → Option ZapiRoute

def OspfPath.zapi (path : OspfPath) : ZapiNexthop :=
  if path.nexthop ≠ 0 ∧ path.ifindex ≠ 0 then .ipv4Ifindex path.nexthop path.ifindex
  else if path.nexthop ≠ 0 then .ipv4 path.nexthop
  else .ifindex path.ifindex

def OspfRoute.metric (or : OspfRoute) : UInt32 :=
  match or.pathType with
  | .type1External => or.cost + or.type2Cost
  | .type2External => or.type2Cost
  | _ => or.cost

section
variable (cfg : ZebraConfig) (zebra : Zebra) (p : Prefix .ip)

def ospfZebraAdd (or : OspfRoute) : Zebra :=
  if cfg.redist then
    update zebra p (some ⟨false, or.paths.map (·.zapi), ospfDistanceApply cfg or, some or.metric⟩)
  else zebra

def ospfZebraAddDiscard : Zebra := if cfg.redist then update zebra p (some ⟨true, [], 0, none⟩) else zebra

/-- `ospf_zebra_delete` and `ospf_zebra_delete_discard`: the message names no next hop by which zebra would choose. -/
def ospfZebraDelete : Zebra := if cfg.redist then update zebra p none else zebra

def ospfRouteExistNewTable (rt : RoutingTable) (p : Prefix .ip) : Bool := (rt.get p).isSome

/-- The comparison of the paths, one by one. -/
def samePaths (paths newPaths : List OspfPath) : Bool :=
  paths.length = newPaths.length ∧
    (paths.zip newPaths).all fun (op, newop) => op.nexthop = newop.nexthop ∧ op.ifindex = newop.ifindex

/-- What `ospf_route_match_same` compares. -/
def sameRoute (or newor : OspfRoute) : Bool :=
  or.type = newor.type ∧ or.cost = newor.cost ∧ (or.type = .network → samePaths or.paths newor.paths)

def ospfRouteMatchSame (rt : Option RoutingTable) (p : Prefix .ip) (newor : OspfRoute) : Bool :=
  match rt.bind (·.get p) with
  | some or => sameRoute or newor
  | none => false

/-- `struct ospf`, with what zebra holds. -/
structure OspfTables where
  newTable : Option RoutingTable
  oldTable : Option RoutingTable := none
  oldExternalRoute : Option RoutingTable

/-- The body of the loop of `ospf_route_delete_same_ext`, on the external routes and zebra. -/
def deleteSameExtAt (s : RoutingTable × Zebra) (p : Prefix .ip) (_ : OspfRoute) : RoutingTable × Zebra :=
  if (s.1.get p).isSome then (s.1.erase p, ospfZebraDelete cfg s.2 p) else s

/-- `ospf_route_delete_same_ext`: the routes of the new table take the place of external ones. -/
def ospfRouteDeleteSameExt (externalRoutes routes : RoutingTable) (zebra : Zebra) : RoutingTable × Zebra :=
  routes.forEach (deleteSameExtAt cfg) (externalRoutes, zebra)

/-- The body of the loop of `ospf_route_delete_uniq`. -/
def deleteUniqAt (cmprt : RoutingTable) (zebra : Zebra) (p : Prefix .ip) (or : OspfRoute) : Zebra :=
  if or.pathType = .intraArea ∨ or.pathType = .interArea then
    match or.type with
    | .router => zebra
    | .network | .discard => if ospfRouteExistNewTable cmprt p then zebra else ospfZebraDelete cfg zebra p
  else zebra

/-- `ospf_route_delete_uniq`: the routes of the old table that are for no prefix of the new one. -/
def ospfRouteDeleteUniq (rt cmprt : RoutingTable) (zebra : Zebra) : Zebra := rt.forEach (deleteUniqAt cfg cmprt) zebra

/-- The body of the last loop of `ospf_route_install`. -/
def addNewAt (oldTable : Option RoutingTable) (zebra : Zebra) (p : Prefix .ip) (or : OspfRoute) : Zebra :=
  match or.type with
  | .router => zebra
  | .network => if ospfRouteMatchSame oldTable p or then zebra else ospfZebraAdd cfg zebra p or
  | .discard => if ospfRouteMatchSame oldTable p or then zebra else ospfZebraAddDiscard cfg zebra p

/-- The first half of `ospf_route_install`: old routes are deleted. -/
def ospfRouteDeleteOld (oldTable oldExternalRoute : Option RoutingTable) (rt : RoutingTable) (zebra : Zebra) :
    Option RoutingTable × Zebra :=
  let zebra := oldTable.elim zebra fun old => ospfRouteDeleteUniq cfg old rt zebra
  match oldExternalRoute with
  | some ext => (ospfRouteDeleteSameExt cfg ext rt zebra).map some id
  | none => (none, zebra)

def ospfRouteInstall (ospf : OspfTables) (rt : RoutingTable) (zebra : Zebra) : OspfTables × Zebra :=
  let (ext, zebra) := ospfRouteDeleteOld cfg ospf.newTable ospf.oldExternalRoute rt zebra
  (⟨some rt, ospf.newTable, ext⟩, rt.forEach (addNewAt cfg ospf.newTable) zebra)

end

/-! ## What zebra is to hold -/

section Install
variable {cfg : ZebraConfig} {p : Prefix .ip} {or newor : OspfRoute}

/-- What zebra is sent for a route. -/
def OspfRoute.sent (cfg : ZebraConfig) (or : OspfRoute) : Option ZapiRoute :=
  match or.type with
  | .router => none
  | .network => some ⟨false, or.paths.map (·.zapi), ospfDistanceApply cfg or, some or.metric⟩
  | .discard => some ⟨true, [], 0, none⟩

/-- What the tables determine for a prefix: the route of the routing table, or else that of the external table. -/
def determined (cfg : ZebraConfig) (table external : Option OspfRoute) : Option ZapiRoute :=
  if cfg.redist then (table.bind (·.sent cfg)).or (external.bind (·.sent cfg)) else none

theorem samePaths_iff {paths newPaths : List OspfPath} : samePaths paths newPaths = true ↔ paths = newPaths := by
  unfold samePaths
  rw [decide_eq_true_iff]
  constructor
  · rintro ⟨hlength, hall⟩
    refine List.ext_getElem hlength fun i h h' => ?_
    have hi : i < (paths.zip newPaths).length := by
      rw [List.length_zip]
      omega
    have := List.all_eq_true.1 hall _ (List.getElem_mem hi)
    rw [List.getElem_zip, decide_eq_true_iff] at this
    exact OspfPath.ext_iff.2 this
  · rintro rfl
    refine ⟨rfl, List.all_eq_true.2 fun e he => ?_⟩
    obtain ⟨i, hi, rfl⟩ := List.getElem_of_mem he
    simp

theorem sameRoute_iff : sameRoute or newor = true ↔
    or.type = newor.type ∧ or.cost = newor.cost ∧ (or.type = .network → or.paths = newor.paths) := by
  unfold sameRoute
  rw [decide_eq_true_iff, samePaths_iff]

/-- The routes that are deleted where the new table has none for the prefix. -/
def OspfRoute.Withdrawn (or : OspfRoute) : Prop :=
  (or.pathType = .intraArea ∨ or.pathType = .interArea) ∧ or.type ≠ .router

instance instDecidableWithdrawn (or : OspfRoute) : Decidable or.Withdrawn := inferInstanceAs (Decidable (_ ∧ _))

/-- What the first loop leaves of a route of zebra. -/
def afterUniq (old new : Option OspfRoute) (route : Option ZapiRoute) : Option ZapiRoute :=
  if new = none ∧ ∃ or ∈ old, or.Withdrawn then none else route

/-- What the second loop leaves of it. -/
def afterSameExt (external new : Option OspfRoute) (route : Option ZapiRoute) : Option ZapiRoute :=
  if new.isSome ∧ external.isSome then none else route

/-- What zebra holds after the third one. -/
def afterAdd (cfg : ZebraConfig) (old new : Option OspfRoute) (route : Option ZapiRoute) : Option ZapiRoute :=
  match new with
  | some newor => if newor.type = .router ∨ old.any (sameRoute · newor) then route else newor.sent cfg
  | none => route

theorem deleteUniqAt_self (hredist : cfg.redist = true) (cmprt : RoutingTable) (zebra : Zebra) (p : Prefix .ip)
    (or : OspfRoute) : deleteUniqAt cfg cmprt zebra p or p = afterUniq (some or) (cmprt.get p) (zebra p) := by
  unfold deleteUniqAt afterUniq OspfRoute.Withdrawn ospfRouteExistNewTable ospfZebraDelete
  by_cases hpath : or.pathType = .intraArea ∨ or.pathType = .interArea
  · cases htype : or.type <;> cases hnew : cmprt.get p <;> simp [hpath, htype, hredist]
  · simp [hpath]

theorem deleteUniqAt_other (cmprt : RoutingTable) (zebra : Zebra) (p : Prefix .ip) (or : OspfRoute) (p' : Prefix .ip)
    (hne : p' ≠ p) : deleteUniqAt cfg cmprt zebra p or p' = zebra p' := by
  unfold deleteUniqAt ospfZebraDelete
  cases or.type <;> dsimp only <;> split_ifs <;> first | rfl | exact update_of_ne hne ..

theorem ospfRouteDeleteUniq_apply (hredist : cfg.redist = true) (rt cmprt : RoutingTable) (zebra : Zebra)
    (p : Prefix .ip) : ospfRouteDeleteUniq cfg rt cmprt zebra p = afterUniq (rt.get p) (cmprt.get p) (zebra p) := by
  refine (rt.obs_forEach id (fun p or => afterUniq (some or) (cmprt.get p)) (deleteUniqAt_self hredist cmprt)
    (deleteUniqAt_other cmprt) zebra p).trans ?_
  cases rt.get p with
  | none => simp [afterUniq]
  | some or => rfl

/-- An external route and the route of zebra for its prefix. -/
def extAndZebra (s : RoutingTable × Zebra) (p : Prefix .ip) : Option OspfRoute × Option ZapiRoute := (s.1.get p, s.2 p)

theorem deleteSameExtAt_self (hredist : cfg.redist = true) (s : RoutingTable × Zebra) (p : Prefix .ip)
    (or : OspfRoute) :
    extAndZebra (deleteSameExtAt cfg s p or) p =
      (none, afterSameExt (extAndZebra s p).1 (some or) (extAndZebra s p).2) := by
  unfold deleteSameExtAt extAndZebra afterSameExt ospfZebraDelete
  cases hext : s.1.get p <;> simp [hext, hredist, Entries.get_erase]

theorem deleteSameExtAt_other (s : RoutingTable × Zebra) (p : Prefix .ip) (or : OspfRoute) (p' : Prefix .ip)
    (hne : p' ≠ p) : extAndZebra (deleteSameExtAt cfg s p or) p' = extAndZebra s p' := by
  unfold deleteSameExtAt extAndZebra ospfZebraDelete
  split_ifs
  · dsimp only
    rw [Entries.get_erase, if_neg hne, update_of_ne hne]
  · rw [Entries.get_erase, if_neg hne]
  · rfl

theorem ospfRouteDeleteSameExt_apply (hredist : cfg.redist = true) (externalRoutes routes : RoutingTable)
    (zebra : Zebra) (p : Prefix .ip) :
    extAndZebra (ospfRouteDeleteSameExt cfg externalRoutes routes zebra) p =
      (if (routes.get p).isSome then none else externalRoutes.get p,
        afterSameExt (externalRoutes.get p) (routes.get p) (zebra p)) := by
  refine (routes.obs_forEach extAndZebra (fun p or s => (none, afterSameExt s.1 (some or) s.2))
    (deleteSameExtAt_self hredist) deleteSameExtAt_other (externalRoutes, zebra) p).trans ?_
  cases routes.get p with
  | none => simp [extAndZebra, afterSameExt]
  | some or => rfl

theorem ospfRouteMatchSame_eq (rt : Option RoutingTable) (p : Prefix .ip) (newor : OspfRoute) :
    ospfRouteMatchSame rt p newor = (rt.bind (·.get p)).any (sameRoute · newor) := by
  unfold ospfRouteMatchSame
  cases rt.bind (·.get p) <;> rfl

theorem addNewAt_self (hredist : cfg.redist = true) (oldTable : Option RoutingTable) (zebra : Zebra) (p : Prefix .ip)
    (or : OspfRoute) : addNewAt cfg oldTable zebra p or p =
      afterAdd cfg (oldTable.bind (·.get p)) (some or) (zebra p) := by
  unfold addNewAt afterAdd ospfZebraAdd ospfZebraAddDiscard OspfRoute.sent
  rw [ospfRouteMatchSame_eq]
  by_cases hsame : (oldTable.bind (·.get p)).any (sameRoute · or) = true <;> cases htype : or.type <;>
    simp [hsame, htype, hredist]

theorem addNewAt_other (oldTable : Option RoutingTable) (zebra : Zebra) (p : Prefix .ip) (or : OspfRoute)
    (p' : Prefix .ip) (hne : p' ≠ p) : addNewAt cfg oldTable zebra p or p' = zebra p' := by
  unfold addNewAt ospfZebraAdd ospfZebraAddDiscard
  cases or.type <;> dsimp only <;> split_ifs <;> first | rfl | exact update_of_ne hne ..

section
variable (hredist : cfg.redist = true)
include hredist

section
variable (rt : RoutingTable) (zebra : Zebra) (p : Prefix .ip)

theorem ospfRouteDeleteOld_apply (oldTable oldExternalRoute : Option RoutingTable) :
    ((ospfRouteDeleteOld cfg oldTable oldExternalRoute rt zebra).1.bind (·.get p),
      (ospfRouteDeleteOld cfg oldTable oldExternalRoute rt zebra).2 p) =
    (if (rt.get p).isSome then none else oldExternalRoute.bind (·.get p),
      afterSameExt (oldExternalRoute.bind (·.get p)) (rt.get p)
        (afterUniq (oldTable.bind (·.get p)) (rt.get p) (zebra p))) := by
  unfold ospfRouteDeleteOld
  have huniq : (oldTable.elim zebra fun old => ospfRouteDeleteUniq cfg old rt zebra) p =
      afterUniq (oldTable.bind (·.get p)) (rt.get p) (zebra p) := by
    cases oldTable with
    | none => simp [afterUniq]
    | some old => exact ospfRouteDeleteUniq_apply hredist old rt zebra p
  cases oldExternalRoute with
  | none => simp [afterSameExt, huniq]
  | some ext =>
    rw [← huniq]
    exact ospfRouteDeleteSameExt_apply hredist ext rt _ p

theorem ospfRouteInstall_apply (ospf : OspfTables) : (ospfRouteInstall cfg ospf rt zebra).2 p =
      afterAdd cfg (ospf.newTable.bind (·.get p)) (rt.get p) (afterSameExt (ospf.oldExternalRoute.bind (·.get p))
        (rt.get p) (afterUniq (ospf.newTable.bind (·.get p)) (rt.get p) (zebra p))) := by
  have hold := congrArg Prod.snd (ospfRouteDeleteOld_apply hredist rt zebra p ospf.newTable ospf.oldExternalRoute)
  dsimp only at hold
  rw [← hold]
  refine (rt.obs_forEach id (fun p or => afterAdd cfg (ospf.newTable.bind (·.get p)) (some or))
    (addNewAt_self hredist ospf.newTable) (addNewAt_other ospf.newTable) _ p).trans ?_
  cases rt.get p <;> rfl

theorem ospfRouteInstall_external (ospf : OspfTables) :
    (ospfRouteInstall cfg ospf rt zebra).1.oldExternalRoute.bind (·.get p) =
      if (rt.get p).isSome then none else ospf.oldExternalRoute.bind (·.get p) :=
  congrArg Prod.fst (ospfRouteDeleteOld_apply hredist rt zebra p ospf.newTable ospf.oldExternalRoute)

end

end

/-- A route of the old table does no harm to what zebra is to hold for its prefix. -/
structure Settles (cfg : ZebraConfig) (or : OspfRoute) (external new : Option OspfRoute) : Prop where
  /-- Where it is deleted, zebra is to hold no external route. -/
  deleted : new = none → or.Withdrawn → ∀ ext ∈ external, ext.type = .router
  /-- Where it is kept though the new table has none, zebra is to hold the like as an external route. -/
  kept : new = none → ¬ or.Withdrawn → ∃ ext ∈ external, ext.sent cfg = or.sent cfg
  /-- Nor has the new table a route to a router. -/
  hidden : ∀ newor ∈ new, newor.type = .router → external.isSome
  /-- Where the new route passes for the same, no external route for the prefix is deleted, and the new route has the
  same distance and metric. -/
  same : ∀ newor ∈ new, sameRoute or newor → external = none ∧
    (or.type = .network → ospfDistanceApply cfg or = ospfDistanceApply cfg newor ∧ or.metric = newor.metric)

theorem sent_eq_none_iff (cfg : ZebraConfig) : or.sent cfg = none ↔ or.type = .router := by
  unfold OspfRoute.sent
  cases or.type <;> simp

/-- The test for the same route sees all that is sent but the distance and the metric. -/
theorem sent_eq_iff_of_same (h : sameRoute or newor = true) : or.sent cfg = newor.sent cfg ↔
    (or.type = .network → ospfDistanceApply cfg or = ospfDistanceApply cfg newor ∧ or.metric = newor.metric) := by
  obtain ⟨htype, -, hpaths⟩ := sameRoute_iff.1 h
  unfold OspfRoute.sent
  rw [← htype]
  cases hor : or.type with
  | router => simp
  | discard => simp
  | network => simp [hpaths hor]

section
variable (hredist : cfg.redist = true)
include hredist

theorem determined_eq (table external : Option OspfRoute) :
    determined cfg table external = (table.bind (·.sent cfg)).or (external.bind (·.sent cfg)) := if_pos hredist

theorem installed_none_iff (old external : Option OspfRoute) :
    afterUniq old none (determined cfg old external) = determined cfg none external ↔
      ∀ or ∈ old, or.type ≠ .router → Settles cfg or external none := by
  rw [determined_eq hredist, determined_eq hredist, bind_none, none_or]
  unfold afterUniq
  rcases old with _ | or
  · simp
  rw [bind_some]
  simp only [mem_def, some.injEq, forall_eq', exists_eq_left', true_and]
  by_cases htype : or.type = .router
  · have hnot : ¬ or.Withdrawn := fun h => h.2 htype
    rw [if_neg hnot, (sent_eq_none_iff cfg).2 htype]
    exact iff_of_true rfl fun h => absurd htype h
  obtain ⟨route, hrt⟩ := Option.ne_none_iff_exists'.1 (mt (sent_eq_none_iff cfg).1 htype)
  split_ifs with hw
  · rw [eq_comm, Option.bind_eq_none_iff]
    simp only [sent_eq_none_iff]
    exact ⟨fun h _ => ⟨fun _ _ => h, fun _ hnot => absurd hw hnot, by simp, by simp⟩, fun h => (h htype).deleted rfl hw⟩
  rw [hrt, Option.some_or, eq_comm, Option.bind_eq_some_iff]
  constructor
  · intro h _
    exact ⟨fun _ hw' => absurd hw' hw, fun _ _ => hrt ▸ h, by simp, by simp⟩
  · exact fun h => hrt ▸ (h htype).kept rfl hw

theorem installed_some_iff (old external : Option OspfRoute) (newor : OspfRoute) :
    afterAdd cfg old (some newor) (afterSameExt external (some newor) (determined cfg old external)) =
      determined cfg (some newor) none ↔ ∀ or ∈ old, or.type ≠ .router → Settles cfg or external (some newor) := by
  rw [determined_eq hredist, determined_eq hredist, bind_none, or_none, bind_some]
  unfold afterAdd afterSameExt
  rw [isSome_some]
  simp only [true_and]
  by_cases hrtr : newor.type = .router
  · rw [if_pos (.inl hrtr), (sent_eq_none_iff cfg).2 hrtr]
    have hnot : ∀ or : OspfRoute, or.type ≠ .router → ¬ sameRoute or newor = true := fun or htype hsame =>
      htype ((sameRoute_iff.1 hsame).1.trans hrtr)
    rcases external with _ | ext
    · rcases old with _ | or
      · simp
      simp only [Option.isSome_none, Bool.false_eq_true, if_false, bind_some, bind_none, or_none,
        sent_eq_none_iff, mem_def, some.injEq, forall_eq']
      exact ⟨fun htype hne => absurd htype hne,
        fun h => of_not_not fun hne => by cases (h hne).hidden newor rfl hrtr⟩
    · refine iff_of_true (if_pos rfl) fun or _ htype => ⟨by simp, by simp, fun _ _ _ => rfl, ?_⟩
      rintro _ ⟨⟩ hsame
      exact absurd hsame (hnot or htype)
  by_cases hsame : old.any (sameRoute · newor) = true
  · rw [if_pos (.inr hsame)]
    rcases old with _ | or
    · cases hsame
    have hor : sameRoute or newor = true := hsame
    have htype : or.type ≠ .router := (sameRoute_iff.1 hor).1 ▸ hrtr
    simp only [bind_some, mem_def, some.injEq, forall_eq']
    rcases external with _ | ext
    · rw [if_neg (by simp), bind_none, or_none, sent_eq_iff_of_same hor]
      constructor
      · intro h _
        refine ⟨by simp, by simp, ?_, ?_⟩
        · rintro _ ⟨⟩ h'
          exact absurd h' hrtr
        · rintro _ ⟨⟩ -
          exact ⟨rfl, h⟩
      · exact fun h => ((h htype).same newor rfl hor).2
    · rw [if_pos isSome_some, eq_comm, sent_eq_none_iff]
      exact iff_of_false hrtr fun h => by cases ((h htype).same newor rfl hor).1
  · rw [if_neg (not_or.2 ⟨hrtr, hsame⟩)]
    refine iff_of_true rfl fun or hor _ => ⟨by simp, by simp, ?_, ?_⟩
    · rintro _ ⟨⟩ h'
      exact absurd h' hrtr
    · rintro _ ⟨⟩ h'
      cases hor
      exact absurd h' hsame

end

theorem ospfRouteInstall_silent (hredist : ¬ cfg.redist = true) (ospf : OspfTables) (rt : RoutingTable)
    (zebra : Zebra) :
    (ospfRouteInstall cfg ospf rt zebra).2 = zebra := by
  have huniq : ∀ old, ospfRouteDeleteUniq cfg old rt zebra = zebra := fun old =>
    old.eq_forEach (f := id) (fun zebra p or => by
      unfold deleteUniqAt ospfZebraDelete
      cases or.type <;> simp [hredist]) zebra
  have hext : ∀ ext zebra, (ospfRouteDeleteSameExt cfg ext rt zebra).2 = zebra := fun ext zebra =>
    rt.eq_forEach (f := Prod.snd) (fun s p or => by
      unfold deleteSameExtAt ospfZebraDelete
      split <;> rfl) (ext, zebra)
  have hold : (ospfRouteDeleteOld cfg ospf.newTable ospf.oldExternalRoute rt zebra).2 = zebra := by
    unfold ospfRouteDeleteOld
    rcases ospf.newTable with _ | old <;> rcases ospf.oldExternalRoute with _ | ext <;> simp [huniq, hext]
  refine (rt.eq_forEach (f := id) (fun zebra p or => ?_) _).trans hold
  unfold addNewAt ospfZebraAdd ospfZebraAddDiscard
  cases or.type <;> simp [hredist]

end Install

/-- Where zebra holds what the table in use and the external table determine, then after the installation it holds what
the new table and the external routes that are left determine, exactly where each route of the table before settles with
the new ones for its prefix. -/
theorem ospfRouteInstall_converges (cfg : ZebraConfig) (ospf : OspfTables) (rt : RoutingTable) (zebra : Zebra)
    (hzebra : ∀ p, zebra p = determined cfg (ospf.newTable.bind (·.get p)) (ospf.oldExternalRoute.bind (·.get p))) :
    (∀ p, (ospfRouteInstall cfg ospf rt zebra).2 p = determined cfg (rt.get p)
      ((ospfRouteInstall cfg ospf rt zebra).1.oldExternalRoute.bind (·.get p))) ↔
    (cfg.redist = true → ∀ p, ∀ or ∈ ospf.newTable.bind (·.get p), or.type ≠ .router →
      Settles cfg or (ospf.oldExternalRoute.bind (·.get p)) (rt.get p)) := by
  by_cases hredist : cfg.redist = true
  · rw [forall_prop_of_true hredist]
    refine forall_congr' fun p => ?_
    rw [ospfRouteInstall_apply hredist, ospfRouteInstall_external hredist, hzebra p]
    cases rt.get p with
    | none => exact installed_none_iff hredist ..
    | some newor => exact installed_some_iff hredist _ _ newor
  · refine iff_of_true (fun p => ?_) fun h => absurd h hredist
    rw [ospfRouteInstall_silent hredist, hzebra, determined, determined, if_neg hredist, if_neg hredist]

/-- A table that is installed again sends nothing, whatever zebra holds. -/
theorem ospfRouteInstall_again (cfg : ZebraConfig) (ospf : OspfTables) (rt : RoutingTable) (zebra zebra' : Zebra) :
    (ospfRouteInstall cfg (ospfRouteInstall cfg ospf rt zebra).1 rt zebra').2 = zebra' := by
  by_cases hredist : cfg.redist = true
  · funext p
    rw [ospfRouteInstall_apply hredist, ospfRouteInstall_external hredist]
    cases hnew : rt.get p <;> simp [ospfRouteInstall, afterUniq, afterSameExt, afterAdd, hnew, sameRoute_iff]
  · exact ospfRouteInstall_silent hredist ..

/-- A network that is reached over the next hop 10.0.0.2 at the cost 10. -/
def routeOver (pathType : PathType) : OspfRoute := ⟨.network, pathType, [⟨0x0a000002, 3⟩], 10, 0⟩

/-- The table with one such network. -/
def tableOver (pathType : PathType) : RoutingTable := .singleton (ip4 192 0 2 0 24 slash24_le) (routeOver pathType)

/-- `distance ospf intra-area 10 inter-area 20`. -/
def intraInterConfig : ZebraConfig := { redist := true, distanceIntra := 10, distanceInter := 20 }

/-- Zebra holds what the table with an intra-area route determines. -/
def zebraOver : Zebra := fun p => determined intraInterConfig ((tableOver .intraArea).get p) none

theorem get_tableOver {p : Prefix .ip} {pathType : PathType} {or : OspfRoute}
    (h : (tableOver pathType).get p = some or) :
    p = ip4 192 0 2 0 24 slash24_le ∧ or = routeOver pathType := by
  unfold tableOver Entries.singleton Entries.get at h
  rw [List.lookup_cons] at h
  split at h
  · rename_i heq
    exact ⟨eq_of_beq heq, (some.inj h).symm⟩
  · cases h

/-- The network is reached through another area by the next hop 10.0.0.9, and there is a second network. -/
def movedTable : RoutingTable :=
  ⟨[(ip4 192 0 2 0 24 slash24_le, ⟨.network, .interArea, [⟨0x0a000009, 4⟩], 20, 0⟩),
    (ip4 198 51 100 0 24 slash24_le, routeOver .intraArea)], by decide⟩

theorem ospfRouteInstall_converges_moved : ∃ zebra,
    zebra = (ospfRouteInstall intraInterConfig ⟨some (tableOver .intraArea), none, none⟩ movedTable zebraOver).2 ∧
    zebra (ip4 192 0 2 0 24 slash24_le) = some ⟨false, [.ipv4Ifindex 0x0a000009 4], 20, some 20⟩ ∧
    zebra (ip4 198 51 100 0 24 slash24_le) = some ⟨false, [.ipv4Ifindex 0x0a000002 3], 10, some 10⟩ := by
  have hall := (ospfRouteInstall_converges intraInterConfig ⟨some (tableOver .intraArea), none,
    none⟩ movedTable zebraOver
    (fun _ => rfl)).2 ?_
  · exact ⟨_, rfl, (hall _).trans (by decide), (hall _).trans (by decide)⟩
  intro _ p or hor _
  obtain ⟨rfl, rfl⟩ := get_tableOver hor
  refine ⟨nofun, nofun, ?_, ?_⟩
  · rintro _ ⟨⟩ ⟨⟩
  · rintro _ ⟨⟩ hsame
    exact absurd hsame (by decide)

/-- The route becomes one between areas, with another distance, and zebra is not told. -/
theorem ospfRouteInstall_converges_path_type :
    (ospfRouteInstall intraInterConfig ⟨some (tableOver .intraArea), none, none⟩ (tableOver .interArea) zebraOver).2
      (ip4 192 0 2 0 24 slash24_le) = some ⟨false, [.ipv4Ifindex 0x0a000002 3], 10, some 10⟩ ∧
    determined intraInterConfig ((tableOver .interArea).get (ip4 192 0 2 0 24 slash24_le)) none =
      some ⟨false, [.ipv4Ifindex 0x0a000002 3], 20, some 10⟩ := by
  decide

end Tarpan.Ospfd
