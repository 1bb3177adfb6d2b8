/-
What changes the paths of the tables (bgpd/bgp_route.c, bgpd/bgp_nexthop.c): updates and withdrawals of a peer, for the
main table and for those of the route server clients, routes of the router itself, the scan of the next hops, the end of
a session, and the processing that takes removed paths out. A run is any sequence of such calls.
-/
import Tarpan.Bgpd.Rib.Damp

namespace Tarpan.Bgpd

section Update
variable {α : Type} (env : RibEnv α)

/-- What `bgp_nexthop_lookup` finds; a link-local address is not looked up. -/
inductive NexthopAnswer where
  | link
  | resolved (valid : Bool) (metric : UInt32)

section
variable (s : Rib α)

def bgpNexthopLookup (a : Nat) : NexthopAnswer → Option (Bool × Rib α)
  | .link => some (true, s)
  | .resolved valid metric => do
    let s ← s.modifyPath a fun ri =>
      if valid ∧ metric ≠ 0 then { ri with extra := some { ri.getExtra with igpmetric := metric } }
      else { ri with extra := ri.extra.map ({ · with igpmetric := 0 }) }
    some (valid, s)

/-- Damping is for the paths of external peers. -/
def RibEnv.damps (ri : BgpPath α) : Bool := env.dampening ri.rn.afi ri.rn.safi && env.sort ri.peer = .ebgp

/-- The next hop of a path is looked up. -/
def RibEnv.looksUp (ri : BgpPath α) : Bool :=
  ri.rn.safi = .unicast ∧ (env.sort ri.peer = .ibgp ∨ env.sort ri.peer = .confed ∨
    (env.sort ri.peer = .ebgp ∧ env.ttl ri.peer ≠ 1) ∨ env.disableConnectedCheck ri.peer)

def bgpRibRemove (a : Nat) : Option (Rib α) := do
  let s ← bgpAggregateDecrement env s a
  let ri ← s.path a
  if ri.flags .history then some s else s.bgpInfoDelete env a

def bgpRibWithdraw (a : Nat) (tNow : Int) : Option (Rib α) := do
  let ri ← s.path a
  if env.damps ri then do
    let (status, s) ← bgpDampWithdraw env s a tNow false
    if status = .suppressed then bgpAggregateDecrement env s a else bgpRibRemove env s a
  else bgpRibRemove env s a

def Rib.findPath (rn : RibNode) (found : BgpPath α → Bool) : Option Nat :=
  (s.info rn).find? fun a => (s.path a).any found

/-- `ri->peer == peer && ri->type == type && ri->sub_type == sub_type`. -/
def isFrom (peer : Nat) (type : UInt8) (subType : RouteSubType) (ri : BgpPath α) : Bool :=
  ri.peer = peer ∧ ri.type = type ∧ ri.subType = subType

/-- The tag of a VPN path is in its `extra`. -/
def BgpPath.withTag (ri : BgpPath α) : BgpPath α :=
  if ri.rn.safi = .mplsVpn then { ri with extra := some ri.getExtra } else ri

/-- The reachability check of the next hop. -/
def checkNexthop (a : Nat) (answer : NexthopAnswer) : Option (Rib α) := do
  let ri ← s.path a
  if env.looksUp ri then do
    let (valid, s) ← bgpNexthopLookup s a answer
    bgpInfoPutFlags env s a [.valid] valid
  else bgpInfoSetFlag env s a [.valid]

/-- A path that was deleted and is not yet taken out is used again. -/
def restoreRemoved (a : Nat) (ri : BgpPath α) : Option (Rib α) :=
  if ri.flags .removed then s.bgpInfoRestore env a else some s

def unsetStale (a : Nat) (ri : BgpPath α) : Option (Rib α) :=
  if ri.flags .stale then bgpInfoUnsetFlag env s a [.stale] else some s

/-- The attributes of a path that is known have come again. -/
def updateSame (a : Nat) (ri : BgpPath α) (tNow : Int) : Option (Rib α) := do
  let s ← bgpInfoUnsetFlag env s a [.attrChanged]
  if env.damps ri ∧ ri.flags .history then do
    let (status, s) ← bgpDampUpdate env s a tNow
    if status ≠ .suppressed then bgpAggregateIncrement env s a else some s
  else unsetStale env s a ri

/-- The implicit withdraw counts as a flap. -/
def implicitWithdraw (a : Nat) (tNow : Int) : Option (Rib α) := do
  let ri ← s.path a
  if env.damps ri ∧ ¬ ri.flags .history then (bgpDampWithdraw env s a tNow true).map (·.2) else some s

/-- The path is accepted with its new attributes. -/
def acceptPath (a : Nat) (answer : NexthopAnswer) : Option (Rib α) := do
  let s ← checkNexthop env s a answer
  bgpAggregateIncrement env s a

/-- Other attributes of a path that is known have come. -/
def updateChanged (a : Nat) (ri : BgpPath α) (attr : α) (tNow : Int) (answer : NexthopAnswer) : Option (Rib α) := do
  let s ← restoreRemoved env s a ri
  let s ← unsetStale env s a ri
  let s ← bgpInfoSetFlag env s a [.attrChanged]
  let s ← bgpAggregateDecrement env s a
  let s ← implicitWithdraw env s a tNow
  let s ← s.modifyPath a fun ri => BgpPath.withTag { ri with attr }
  if env.damps ri then do
    let (status, s) ← bgpDampUpdate env s a tNow
    if status = .suppressed then some s else acceptPath env s a answer
  else acceptPath env s a answer

def updateNew (ri : BgpPath α) (answer : NexthopAnswer) : Option (Rib α) := do
  let (a, s) := s.bgpInfoNew ri.withTag
  let s ← checkNexthop env s a answer
  let s ← bgpAggregateIncrement env s a
  s.bgpInfoAdd a

end

section Equality
variable [DecidableEq α]

/-- `bgp_update_main`; `attr` is what the policies for the peer make of the attributes, nothing where they deny them. -/
def bgpUpdateMain (s : Rib α) (rn : RibNode) (peer : Nat) (type : UInt8) (subType : RouteSubType) (attr : Option α)
    (tNow : Int) (answer : NexthopAnswer) : Option (Rib α) :=
  match s.findPath rn (isFrom peer type subType), attr with
  | some a, some attr => do
    let ri ← s.path a
    if ¬ ri.flags .removed ∧ ri.attr = attr then updateSame env s a ri tNow
    else updateChanged env s a ri attr tNow answer
  | none, some attr => updateNew env s { peer, type, subType, attr, rn } answer
  | some a, none => bgpRibRemove env s a
  | none, none => some s

def bgpUpdateRsclient (s : Rib α) (rsclient : Nat) (rn : RibNode) (peer : Nat) (type : UInt8) (subType : RouteSubType)
    (attr : Option α) : Option (Rib α) :=
  let rn := { rn with table := .rsclient rsclient }
  if peer = rsclient then some s
  else match s.findPath rn (isFrom peer type subType), attr with
    | some a, some attr => do
      let ri ← s.path a
      if ¬ ri.flags .removed ∧ ri.attr = attr then bgpInfoUnsetFlag env s a [.attrChanged]
      else do
        let s ← restoreRemoved env s a ri
        let s ← bgpInfoSetFlag env s a [.attrChanged]
        let s ← s.modifyPath a fun ri => BgpPath.withTag { ri with attr }
        bgpInfoSetFlag env s a [.valid]
    | none, some attr => do
      let (a, s) := s.bgpInfoNew (BgpPath.withTag { peer, type, subType, attr, rn })
      let s ← bgpInfoSetFlag env s a [.valid]
      s.bgpInfoAdd a
    | some a, none => bgpRibRemove env s a
    | none, none => some s

/-- `bgp_update`; `clients` are the route server clients, each with what the policies for it make of the attributes. -/
def bgpUpdate (s : Rib α) (rn : RibNode) (peer : Nat) (attr : Option α) (tNow : Int) (answer : NexthopAnswer)
    (clients : List (Nat × Option α)) : Option (Rib α) := do
  let s ← bgpUpdateMain env s rn peer zebraRouteBgp .normal attr tNow answer
  clients.foldlM (fun s c => bgpUpdateRsclient env s c.1 rn peer zebraRouteBgp .normal c.2) s

end Equality

section
variable (s : Rib α) (rn : RibNode) (peer : Nat)

def withdrawPath (type : UInt8) (subType : RouteSubType) (tNow : Int) : Option (Rib α) :=
  match s.findPath rn (isFrom peer type subType) with
  | some a => do
    let ri ← s.path a
    if ri.flags .history then some s else bgpRibWithdraw env s a tNow
  | none => some s

def bgpWithdrawRsclient (rsclient : Nat) (rn : RibNode) (peer : Nat) (type : UInt8) (subType : RouteSubType)
    (tNow : Int) : Option (Rib α) :=
  if rsclient = peer then some s
  else withdrawPath env s { rn with table := .rsclient rsclient } peer type subType tNow

def bgpWithdraw (tNow : Int) (clients : List Nat) : Option (Rib α) := do
  let s ← clients.foldlM (fun s c => bgpWithdrawRsclient env s c rn peer zebraRouteBgp .normal tNow) s
  withdrawPath env s rn peer zebraRouteBgp .normal tNow

/-- `bgp_clear_route_node`; `mine` is `BGP_CLEAR_ROUTE_MY_RSCLIENT`, and `nsf` that the peer is restarting. -/
def bgpClearRouteNode (mine nsf : Bool) : Option (Rib α) :=
  match s.findPath rn fun ri => ri.peer = peer ∨ mine with
  | some a => do
    let ri ← s.path a
    if nsf ∧ ¬ ri.flags .stale ∧ ¬ (ri.flags .history ∨ ri.flags .damped ∨ ri.flags .removed) then
      bgpInfoSetFlag env s a [.stale]
    else bgpRibRemove env s a
  | none => some s

/-- The next hop of a path that `bgp_scan` meets: on a connected network, or looked up. -/
def scanNexthop (a : Nat) (ri : BgpPath α) (onlink : Bool) (answer : NexthopAnswer) : Option (Bool × Rib α) :=
  if env.sort ri.peer = .ebgp ∧ env.ttl ri.peer = 1 ∧ ¬ env.disableConnectedCheck ri.peer then some (onlink, s)
  else bgpNexthopLookup s a answer

/-- The validity of a path that `bgp_scan` meets. -/
def scanValid (a : Nat) (valid : Bool) : Option (Rib α) := do
  let ri ← s.path a
  if valid = ri.flags .valid then some s
  else if ri.flags .valid then do
    let s ← bgpAggregateDecrement env s a
    bgpInfoUnsetFlag env s a [.valid]
  else do
    let s ← bgpInfoSetFlag env s a [.valid]
    bgpAggregateIncrement env s a

/-- The damping of a path that `bgp_scan` meets. -/
def scanDamp (a : Nat) (tNow : Int) : Option (Rib α) := do
  let ri ← s.path a
  if env.dampening ri.rn.afi ri.rn.safi ∧ ri.dampInfo.isSome then do
    let (reused, s) ← bgpDampScan env s a tNow
    if reused then bgpAggregateIncrement env s a else some s
  else some s

/-- A path that `bgp_scan` meets. -/
def scanPath (a : Nat) (onlink : Bool) (answer : NexthopAnswer) (tNow : Int) : Option (Rib α) := do
  let ri ← s.path a
  if ri.type = zebraRouteBgp ∧ ri.subType = .normal then do
    let (valid, s) ← scanNexthop env s a ri onlink answer
    let s ← scanValid env s a valid
    scanDamp env s a tNow
  else some s

end

/-! ## Routes of the router itself -/

/-- The old attributes of a path go. -/
def restoreOrDecrement (s : Rib α) (a : Nat) (old : BgpPath α) : Option (Rib α) :=
  if old.flags .removed then s.bgpInfoRestore env a else bgpAggregateDecrement env s a

section Equality
variable [DecidableEq α]

/-- A route of the router itself, of which `found` is the path that is known. -/
def selfUpdate (s : Rib α) (found : BgpPath α → Bool) (ri : BgpPath α) : Option (Rib α) :=
  match s.findPath ri.rn found with
  | some a => do
    let old ← s.path a
    if old.attr = ri.attr ∧ ¬ old.flags .removed then some s
    else do
      let s ← bgpInfoSetFlag env s a [.attrChanged]
      let s ← restoreOrDecrement env s a old
      let s ← s.modifyPath a ({ · with attr := ri.attr })
      bgpAggregateIncrement env s a
  | none => do
    let (a, s) := s.bgpInfoNew ri
    let s ← bgpAggregateIncrement env s a
    s.bgpInfoAdd a

end Equality

/-- A route of the router itself goes. -/
def selfWithdraw (s : Rib α) (rn : RibNode) (found : BgpPath α → Bool) : Option (Rib α) :=
  match s.findPath rn found with
  | some a => do
    let s ← bgpAggregateDecrement env s a
    s.bgpInfoDelete env a
  | none => some s

def bgpStaticWithdraw (s : Rib α) (rn : RibNode) : Option (Rib α) :=
  selfWithdraw env s rn (isFrom env.peerSelf zebraRouteBgp .static)

def bgpRedistributeDelete (s : Rib α) (rn : RibNode) (type : UInt8) : Option (Rib α) :=
  selfWithdraw env s rn fun ri => ri.peer = env.peerSelf ∧ ri.type = type

/-- `bgp_static_withdraw_rsclient`, which tells no aggregate. -/
def bgpStaticWithdrawRsclient (s : Rib α) (rsclient : Nat) (rn : RibNode) : Option (Rib α) :=
  match s.findPath { rn with table := .rsclient rsclient } (isFrom env.peerSelf zebraRouteBgp .static) with
  | some a => s.bgpInfoDelete env a
  | none => some s

section Equality
variable [DecidableEq α]

/-- `bgp_static_update_main`; the route map may deny the route. -/
def bgpStaticUpdateMain (s : Rib α) (rn : RibNode) (attr : Option α) : Option (Rib α) :=
  match attr with
  | some attr => selfUpdate env s (isFrom env.peerSelf zebraRouteBgp .static)
      { peer := env.peerSelf, type := zebraRouteBgp, subType := .static, attr, rn, flags := (· = .valid) }
  | none => bgpStaticWithdraw env s rn

def bgpRedistributeAdd (s : Rib α) (rn : RibNode) (type : UInt8) (attr : Option α) : Option (Rib α) :=
  match attr with
  | some attr => selfUpdate env s (fun ri => ri.peer = env.peerSelf ∧ ri.subType = .redistribute)
      { peer := env.peerSelf, type, subType := .redistribute, attr, rn, flags := (· = .valid) }
  | none => bgpRedistributeDelete env s rn type

/-- `bgp_static_update_rsclient`, which tells no aggregate. -/
def bgpStaticUpdateRsclient (s : Rib α) (rsclient : Nat) (rn : RibNode) (attr : Option α) : Option (Rib α) :=
  let rn' := { rn with table := .rsclient rsclient }
  match s.findPath rn' (isFrom env.peerSelf zebraRouteBgp .static), attr with
  | some a, some attr => do
    let ri ← s.path a
    if ri.attr = attr ∧ ¬ ri.flags .removed then some s
    else do
      let s ← bgpInfoSetFlag env s a [.attrChanged]
      let s ← restoreRemoved env s a ri
      s.modifyPath a ({ · with attr })
  | none, some attr =>
    let (a, s) := s.bgpInfoNew
      { peer := env.peerSelf, type := zebraRouteBgp, subType := .static, attr, rn := rn', flags := (· = .valid) }
    s.bgpInfoAdd a
  | _, none => bgpStaticWithdrawRsclient env s rsclient rn

end Equality

/-! ## Runs -/

/-- What changes the paths. The processing of a node marks paths and reaps those that were removed, and a path is freed
once nothing refers to it. -/
inductive RibCall (α : Type) where
  | update (rn : RibNode) (peer : Nat) (attr : Option α) (tNow : Int) (answer : NexthopAnswer)
    (clients : List (Nat × Option α))
  | withdraw (rn : RibNode) (peer : Nat) (tNow : Int) (clients : List Nat)
  | clear (rn : RibNode) (peer : Nat) (mine nsf : Bool)
  | scan (a : Nat) (onlink : Bool) (answer : NexthopAnswer) (tNow : Int)
  | static (rn : RibNode) (attr : Option α)
  | staticRsclient (rsclient : Nat) (rn : RibNode) (attr : Option α)
  | redistribute (rn : RibNode) (type : UInt8) (attr : Option α)
  | mark (a : Nat) (mask : List PathFlag) (b : Bool)
  | reap (a : Nat)
  | free (a : Nat)
  | reuseTimer (tNow : Int) (turns : Nat)
  | clearDamp (a : Nat)
  | aggregate (k : RibNode) (summaryOnly asSet : Bool)
  | noAggregate (k : RibNode)

/-- The flags of the selection and of the announcements. -/
def PathFlag.selection : PathFlag → Bool
  | .selected | .attrChanged | .stale => true
  | _ => false

namespace RibCall

/-- When a call is made: a path is reaped once it was deleted, and freed once it is in no table. -/
def Legal (s : Rib α) : RibCall α → Prop
  | .update rn .. | .withdraw rn .. | .static rn .. | .redistribute rn .. => rn.OfMain
  | .scan a .. => ∃ ri, s.path a = some ri ∧ a ∈ s.info ri.rn ∧ ri.rn.table = .main ∧ ri.rn.safi = .unicast
  | .mark a mask _ => (∃ ri, s.path a = some ri) ∧ ∀ f ∈ mask, f.selection
  | .reap a => ∃ ri, s.path a = some ri ∧ ri.flags .removed ∧ a ∈ s.info ri.rn
  | .free a => ∃ ri, s.path a = some ri ∧ ri.flags .removed ∧ a ∉ s.info ri.rn
  | .clearDamp a => ∃ ri b, s.path a = some ri ∧ a ∈ s.info ri.rn ∧ ri.dampInfo = some b
  | .aggregate k .. => k.table = .main ∧ k.rd = none ∧ k.safi ≠ .mplsVpn
  | .clear .. | .staticRsclient .. | .reuseTimer .. | .noAggregate _ => True

def exec [DecidableEq α] (s : Rib α) : RibCall α → Option (Rib α)
  | .update rn peer attr tNow answer clients => bgpUpdate env s rn peer attr tNow answer clients
  | .withdraw rn peer tNow clients => bgpWithdraw env s rn peer tNow clients
  | .clear rn peer mine nsf => bgpClearRouteNode env s rn peer mine nsf
  | .scan a onlink answer tNow => scanPath env s a onlink answer tNow
  | .static rn attr => bgpStaticUpdateMain env s rn attr
  | .staticRsclient rsclient rn attr => bgpStaticUpdateRsclient env s rsclient rn attr
  | .redistribute rn type attr => bgpRedistributeAdd env s rn type attr
  | .mark a mask b => bgpInfoPutFlags env s a mask b
  | .reap a => s.bgpInfoReap a
  | .free a => bgpInfoFree env s a
  | .reuseTimer tNow turns => bgpReuseTimer env tNow turns s
  | .clearDamp a => do
    let ri ← s.path a
    let b ← ri.dampInfo
    bgpDampInfoFree env s b true
  | .aggregate k summaryOnly asSet => bgpAggregateSet env s k summaryOnly asSet
  | .noAggregate k => bgpAggregateUnset env s k

end RibCall

/-- The states of the runs from the empty tables in which every call is legal and meets `C`. -/
inductive RibRun [DecidableEq α] (C : Rib α → RibCall α → Prop) : Rib α → Prop
  | start : RibRun C {}
  | step {s s' : Rib α} {call : RibCall α} : RibRun C s → call.Legal s → C s call → call.exec env s = some s' →
    RibRun C s'

end Update

end Tarpan.Bgpd
