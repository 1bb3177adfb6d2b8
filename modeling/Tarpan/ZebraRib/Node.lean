/-
The routes of one prefix in zebra (zebra/zebra_rib.c): entries with their next hops, the check which next hops are
active, the routes that are put into the kernel (zebra/rt_netlink.c), and the choice of `rib_process`.
-/
import Mathlib.Data.List.Basic

namespace Tarpan.ZebraRib

open Function

/-! ## Entries and next hops -/

def zebraRouteKernel : Nat := 1
def zebraRouteConnect : Nat := 2
def zebraRouteBgp : Nat := 9
def distanceInfinity : UInt8 := 255

/-- The distances of `route_info`. The array ends with `ZEBRA_ROUTE_BABEL`, and types that it does not name have 0. -/
def routeInfo : Nat → Option UInt8
  | 0 | 1 | 2 => some 0
  | 3 => some 1
  | 4 | 5 => some 120
  | 6 | 7 => some 110
  | 8 => some 115
  | 9 => some 20
  | 10 | 11 | 12 => some 0
  | 13 => some 95
  | _ => none

/-- `enum nexthop_types_t`, for IPv4; memory that is zero has none of them. -/
inductive NexthopType where
  | unset | ifindex | ifname | ipv4 | ipv4Ifindex | ipv4Ifname | blackhole
  deriving DecidableEq

/-- `struct nexthop`, without the next hops it resolves to. -/
structure Hop where
  type : NexthopType := .unset
  gate : UInt32 := 0
  ifindex : UInt32 := 0
  ifname : String := ""
  active : Bool := false
  fib : Bool := false
  onlink : Bool := false
  deriving DecidableEq

/-- `struct nexthop`. It has `NEXTHOP_FLAG_RECURSIVE` while `resolved` is not empty. -/
structure Nexthop extends Hop where
  resolved : List Hop := []
  deriving DecidableEq

def Nexthop.recursive (n : Nexthop) : Bool := !n.resolved.isEmpty

/-- The `ZEBRA_FLAG_*` of an entry. -/
structure RibFlags where
  internal : Bool := false
  selfroute : Bool := false
  blackhole : Bool := false
  ibgp : Bool := false
  selected : Bool := false
  changed : Bool := false
  static : Bool := false
  reject : Bool := false
  deriving DecidableEq

/-- `struct rib`; `removed` is `RIB_ENTRY_REMOVED`. -/
structure Rib where
  type : Nat
  table : UInt32 := 0
  metric : UInt32 := 0
  distance : UInt8 := 0
  flags : RibFlags := {}
  removed : Bool := false
  refcnt : Nat := 0
  nexthop : List Nexthop := []
  nexthopActiveNum : UInt8 := 0
  deriving DecidableEq

/-- `RIB_SYSTEM_ROUTE`. -/
def Rib.systemRoute (rib : Rib) : Bool := rib.type = zebraRouteKernel ∨ rib.type = zebraRouteConnect

/-- What the rest of the system looks like during a call: the interfaces, the nodes of the unicast table with routes
that hold an address, the longest prefix first, the route-maps by the type of the route and by type, gateway and
interface of the next hop, `MULTIPATH_NUM`, and whether the kernel takes a new route. -/
structure World where
  operative : UInt32 → Bool
  operativeName : String → Option UInt32
  path : UInt32 → List (Nat × List Rib)
  denied : Nat → NexthopType → UInt32 → UInt32 → Bool
  multipathNum : Nat
  kernelAdd : Bool

/-! ## Active next hops -/

/-- `route_node_match` and the way up from there in `nexthop_active_ipv4`: the selected route that is not of BGP. -/
def resolvingRib (top : Nat) : List (Nat × List Rib) → Option Rib
  | [] => none
  | (rn, routes) :: above =>
    if rn = top then none
    else
      match routes.find? fun rib => !rib.removed && rib.flags.selected with
      | none => resolvingRib top above
      | some rib => if rib.type = zebraRouteBgp then resolvingRib top above else some rib

/-- The next hop through which a route resolves another one. -/
def resolvedHop (gate : UInt32) (newhop : Nexthop) : Hop :=
  let hop : Hop := { active := true }
  let hop : Hop :=
    if newhop.type = .ipv4 ∨ newhop.type = .ipv4Ifindex ∨ newhop.type = .ipv4Ifname then
      if newhop.ifindex ≠ 0 then { hop with type := .ipv4Ifindex, gate := newhop.gate, ifindex := newhop.ifindex }
      else { hop with type := newhop.type, gate := newhop.gate }
    else hop
  if newhop.type = .ifindex ∨ newhop.type = .ifname then
    { hop with onlink := true, type := .ipv4Ifindex, gate := gate, ifindex := newhop.ifindex }
  else hop

section
variable (w : World) (top : Nat) (rib : Rib) (nexthop : Nexthop) (set : Bool)

/-- What a next hop finds with `set`, where the route is not a connected one. -/
def resolvingHops : List Nexthop := rib.nexthop.filter fun newhop => newhop.fib && !newhop.recursive

def nexthopActiveIpv4 : Nexthop × Bool :=
  let nexthop := if nexthop.type = .ipv4 then { nexthop with ifindex := 0 } else nexthop
  let nexthop := if set then { nexthop with resolved := [] } else nexthop
  match resolvingRib top (w.path nexthop.gate) with
  | none => (nexthop, false)
  | some found =>
    if found.flags.blackhole ∨ found.flags.reject then (nexthop, false)
    else if found.type = zebraRouteConnect then
      match found.nexthop.head? with
      | some newhop => (if nexthop.type = .ipv4 then { nexthop with ifindex := newhop.ifindex } else nexthop, true)
      | none => (nexthop, true)
    else if rib.flags.internal then
      (if set then { nexthop with resolved := (resolvingHops found).map (resolvedHop nexthop.gate) } else nexthop,
        !(resolvingHops found).isEmpty)
    else (nexthop, false)

/-- The `switch` of `nexthop_active_check`. -/
def nexthopReachable : Nexthop :=
  match nexthop.type with
  | .ifindex => { nexthop with active := w.operative nexthop.ifindex }
  | .ifname =>
    { nexthop with
      active := (w.operativeName nexthop.ifname).isSome
      ifindex := if set then (w.operativeName nexthop.ifname).getD 0 else nexthop.ifindex }
  | .ipv4 | .ipv4Ifindex =>
    let (nexthop, active) := nexthopActiveIpv4 w top rib nexthop set
    { nexthop with active }
  | .blackhole => { nexthop with active := true }
  | .ipv4Ifname | .unset => nexthop

/-- `nexthop_active_check`, which returns the flag `NEXTHOP_FLAG_ACTIVE`. -/
def nexthopActiveCheck : Nexthop :=
  let nexthop := nexthopReachable w top rib nexthop set
  if !nexthop.active || rib.systemRoute then nexthop
  else if w.denied rib.type nexthop.type nexthop.gate nexthop.ifindex then { nexthop with active := false }
  else nexthop

end

/-- The next hop has another state or interface than before. -/
def toggled (old new : Nexthop) : Bool := old.active ≠ new.active || old.ifindex ≠ new.ifindex

/-- `nexthop_active_update`, whose result is `nexthopActiveNum`. -/
def nexthopActiveUpdate (w : World) (top : Nat) (rib : Rib) (set : Bool) : Rib :=
  let nexthop := rib.nexthop.map (nexthopActiveCheck w top rib · set)
  { rib with
    nexthop
    nexthopActiveNum := .ofNat (nexthop.countP (·.active))
    flags := { rib.flags with changed := (rib.nexthop.zip nexthop).any fun p => toggled p.1 p.2 } }

/-! ## The kernel -/

/-- A next hop in a message to the kernel. -/
structure KernelHop where
  gate : Option UInt32
  oif : Option UInt32
  onlink : Bool
  deriving DecidableEq

/-- `_netlink_route_build_singlepath` and `_netlink_route_build_multipath`. -/
def Hop.message (hop : Hop) : KernelHop where
  gate := if hop.type = .ipv4 ∨ hop.type = .ipv4Ifindex then some hop.gate else none
  oif := if hop.type = .ifindex ∨ hop.type = .ifname ∨ hop.type = .ipv4Ifindex then some hop.ifindex else none
  onlink := hop.onlink

/-- A route that the kernel was asked to hold; without next hops if it discards the packets. -/
structure KernelRoute where
  table : UInt32
  metric : UInt32
  hops : List KernelHop
  deriving DecidableEq

/-- The next hops that `ALL_NEXTHOPS_RO` gives for one of a route and that are not recursive. -/
def Nexthop.leaves (n : Nexthop) : List Hop := if n.recursive then n.resolved else [n.toHop]
def Rib.leaves (rib : Rib) : List Hop := rib.nexthop.flatMap Nexthop.leaves

section
variable (w : World) (rib : Rib)

def Rib.discard : Bool := rib.flags.blackhole || rib.flags.reject

/-- As many next hops as a message may have. -/
def World.limit (hops : List Hop) : Nat := if w.multipathNum = 0 then hops.length else w.multipathNum
def Rib.addHops : List Hop := (rib.leaves.filter (·.active)).take (w.limit rib.leaves)
def Rib.deleteHops : List Hop := (rib.leaves.filter (·.fib)).take (w.limit rib.leaves)

/-- The first active ones of some next hops get `NEXTHOP_FLAG_FIB`, as long as there is room. -/
def markHops : Nat → List Hop → Nat × List Hop
  | room, [] => (room, [])
  | room, hop :: hops =>
    if hop.active ∧ room ≠ 0 then
      let (room, hops) := markHops (room - 1) hops
      (room, { hop with fib := true } :: hops)
    else
      let (room, hops) := markHops room hops
      (room, hop :: hops)

/-- The next hops in the message that adds the route get `NEXTHOP_FLAG_FIB`. -/
def markNexthops : Nat → List Nexthop → List Nexthop
  | _, [] => []
  | room, n :: ns =>
    if n.recursive then
      let (room, resolved) := markHops room n.resolved
      { n with resolved } :: markNexthops room ns
    else if n.active ∧ room ≠ 0 then { n with fib := true } :: markNexthops (room - 1) ns
    else n :: markNexthops room ns

/-- `NEXTHOP_FLAG_FIB` of all next hops. -/
def Nexthop.setFib (fib : Bool) (n : Nexthop) : Nexthop :=
  { n with fib, resolved := n.resolved.map fun hop => { hop with fib } }

def Rib.setFib (fib : Bool) (rib : Rib) : Rib := { rib with nexthop := rib.nexthop.map (·.setFib fib) }

/-- A next hop of a route that discards the packets. -/
def Nexthop.markDiscard (n : Nexthop) : Nexthop :=
  if n.recursive then { n with resolved := n.resolved.map fun hop => { hop with fib := true } }
  else { n with fib := true }

/-- What `netlink_route_multipath` marks in a route that it adds. -/
def Rib.marked : Rib :=
  { rib with
    nexthop := if rib.discard then rib.nexthop.map Nexthop.markDiscard
      else markNexthops (w.limit rib.leaves) rib.nexthop }

/-- A message goes out for a new route. -/
def Rib.sendsAdd : Bool := rib.discard || !(rib.addHops w).isEmpty

/-- A message goes out for a route to delete. -/
def Rib.sendsDelete : Bool := rib.discard || !(rib.deleteHops w).isEmpty

/-- The route in the message that adds it. -/
def Rib.kernelRoute : KernelRoute where
  table := rib.table
  metric := rib.metric
  hops := if rib.discard then [] else (rib.addHops w).map Hop.message

end

/-! ## The node -/

/-- A route node of IPv4: the addresses of its entries, the newest first, their memory, and the routes that the kernel
holds for them. New entries start at `brk`. -/
structure Node where
  id : Nat
  unicast : Bool
  routes : List Nat
  rib : Nat → Rib
  kernel : Nat → Option KernelRoute
  brk : Nat

section
variable (w : World) (n : Node) (a : Nat)

def setRib (f : Rib → Rib) : Node := { n with rib := update n.rib a (f (n.rib a)) }

def ribInstallKernel : Node :=
  if !n.unicast then setRib n a (Rib.setFib true)
  else if !(n.rib a).sendsAdd w then setRib n a (Rib.marked w)
  else if w.kernelAdd then
    { setRib n a (Rib.marked w) with kernel := update n.kernel a (some ((n.rib a).kernelRoute w)) }
  else setRib n a fun rib => (rib.marked w).setFib false

/-- `rib_uninstall_kernel`. The kernel does not hold a route that it was asked to delete. -/
def ribUninstallKernel : Node :=
  if !n.unicast then setRib n a (Rib.setFib true)
  else if (n.rib a).sendsDelete w then
    { setRib n a (Rib.setFib false) with kernel := update n.kernel a none }
  else setRib n a (Rib.setFib false)

/-- The kernel is told where it is about a route of zebra's own. -/
def unlessSystem (f : Node → Nat → Node) : Node := if (n.rib a).systemRoute then n else f n a

/-- `nexthop_active_update` in memory. -/
def activeUpdate (set : Bool) : Node := setRib n a (nexthopActiveUpdate w n.id · set)

/-- `ZEBRA_FLAG_SELECTED`. -/
def setSelected (selected : Bool) : Node := setRib n a fun rib => { rib with flags := { rib.flags with selected } }
def ribUnlink : Node := { n with routes := n.routes.erase a }
def ribLink : Node := { n with routes := a :: n.routes }

/-! ## `rib_process` -/

/-- The variables of the loop. -/
structure Scan where
  node : Node
  fib : Option Nat := none
  select : Option Nat := none
  del : Option Nat := none

/-- The route to select of two. -/
def preferred (select a : Nat) : Nat :=
  let old := n.rib select
  let rib := n.rib a
  if rib.type = zebraRouteConnect then
    if old.type ≠ zebraRouteConnect ∨ rib.metric ≤ old.metric then a else select
  else if old.type = zebraRouteConnect then select
  else if old.distance < rib.distance then select
  else if rib.distance < old.distance then a
  else if rib.metric ≤ old.metric then a
  else select

/-- One turn of the loop of `rib_process`; nothing where the assertion fails. -/
def scanRib (s : Scan) (a : Nat) : Option Scan :=
  let rib := s.node.rib a
  if rib.flags.selected ∧ s.fib.isSome then none
  else
    let fib := if rib.flags.selected then some a else s.fib
    if rib.removed then
      if some a ≠ fib then some { s with fib, node := ribUnlink s.node a } else some { s with fib, del := some a }
    else
      let node := activeUpdate w s.node a false
      if (node.rib a).nexthopActiveNum = 0 ∨ rib.distance = distanceInfinity then some { s with fib, node }
      else some { s with fib, node, select := some (s.select.elim a (preferred node · a)) }

/-- The selected route is the same. -/
def updateFib : Node :=
  if (n.rib a).flags.changed then
    let n := unlessSystem n a (ribUninstallKernel w)
    let n := activeUpdate w n a true
    unlessSystem n a (ribInstallKernel w)
  else if (n.rib a).systemRoute then n
  else if (n.rib a).nexthop.any fun nexthop => nexthop.fib || (nexthop.recursive && nexthop.resolved.any (·.fib)) then n
  else ribInstallKernel w n a

/-- The route that was selected is so no more. -/
def removeFib : Node :=
  let n := unlessSystem n a (ribUninstallKernel w)
  let n := setSelected n a false
  activeUpdate w n a true

def addSelect : Node :=
  let n := activeUpdate w n a true
  let n := unlessSystem n a (ribInstallKernel w)
  setSelected n a true

end

/-- What follows the loop of `rib_process`. -/
def applyScan (w : World) (s : Scan) : Node :=
  if s.select.isSome ∧ s.select = s.fib then s.select.elim s.node (updateFib w s.node)
  else
    let n := s.fib.elim s.node (removeFib w s.node)
    let n := s.select.elim n (addSelect w n)
    s.del.elim n (ribUnlink n)

def ribProcess (w : World) (n : Node) : Option Node := (n.routes.foldlM (scanRib w) { node := n }).map (applyScan w)

/-! ## Routes come and go -/

/-- A new entry in memory, linked by `rib_addnode`. -/
def ribAddnode (n : Node) (rib : Rib) : Node := ribLink { n with rib := update n.rib n.brk rib, brk := n.brk + 1 } n.brk
def ribDelnode (n : Node) (a : Nat) : Node := setRib n a ({ · with removed := true })

/-- Routes of the kernel and of interfaces are there. -/
def fibOfKernel (rib : Rib) : Rib :=
  if rib.systemRoute then { rib with nexthop := rib.nexthop.map ({ · with fib := true }) } else rib

/-- Distances by type. -/
def defaultDistance (info : UInt8) (type : Nat) (flags : RibFlags) (distance : UInt8) : UInt8 :=
  if distance = 0 then if type = zebraRouteBgp ∧ flags.ibgp then 200 else info else distance

/-- The connected route of an interface. -/
def connectedTo (ifindex : UInt32) (rib : Rib) : Bool :=
  rib.nexthop.head?.any fun nexthop => nexthop.type = .ifindex ∧ nexthop.ifindex = ifindex

/-- The loop of `rib_add_ipv4`: the entry of the same type that is replaced, or the connected route that is there. -/
def findSame (n : Node) (type : Nat) (ifindex : UInt32) : Option Nat :=
  n.routes.find? fun a => !(n.rib a).removed && (n.rib a).type = type &&
    (type ≠ zebraRouteConnect || connectedTo ifindex (n.rib a))

/-- The next hop of `rib_add_ipv4`. -/
def givenNexthop (gate : Option UInt32) (ifindex : UInt32) : Nexthop :=
  match gate with
  | some gate => if ifindex ≠ 0 then { type := .ipv4Ifindex, gate, ifindex } else { type := .ipv4, gate }
  | none => { type := .ifindex, ifindex }

def ribAddIpv4 (n : Node) (type : Nat) (flags : RibFlags) (gate : Option UInt32) (ifindex table metric : UInt32)
    (distance : UInt8) : Node :=
  let same := findSame n type ifindex
  if type = zebraRouteConnect ∧ same.isSome then
    same.elim n fun a => setRib n a fun rib => { rib with refcnt := rib.refcnt + 1 }
  else
    let n := ribAddnode n (fibOfKernel
      { type, flags, table, metric, distance := defaultDistance ((routeInfo type).getD 150) type flags distance
        nexthop := [givenNexthop gate ifindex] })
    same.elim n (ribDelnode n)

/-- `rib_add_ipv4_multipath`, for an entry with next hops as `nexthop_add` makes them; `beyond` is what is read for a
type that `route_info` does not have. -/
def ribAddIpv4Multipath (n : Node) (beyond : UInt8) (type : Nat) (flags : RibFlags) (table metric : UInt32)
    (distance : UInt8) (hops : List (NexthopType × UInt32 × UInt32 × String)) : Node :=
  let same := n.routes.find? fun a =>
    !(n.rib a).removed && (n.rib a).type = type && (n.rib a).table = table && (n.rib a).type ≠ zebraRouteConnect
  let n := ribAddnode n (fibOfKernel
    { type, flags, table, metric, distance := defaultDistance ((routeInfo type).getD beyond) type flags distance
      nexthop := hops.map fun h => { type := h.1, gate := h.2.1, ifindex := h.2.2.1, ifname := h.2.2.2 } })
  same.elim n (ribDelnode n)

/-- What `rib_delete_ipv4` asks an entry of the type. -/
def deletes (gate : Option UInt32) (ifindex : UInt32) (rib : Rib) : Bool :=
  if rib.type = zebraRouteConnect ∧ rib.nexthop.head?.any (·.type = .ifindex) then connectedTo ifindex rib
  else
    match gate with
    | none => true
    | some gate => rib.nexthop.any fun nexthop =>
        nexthop.gate = gate || (nexthop.recursive && nexthop.resolved.any (·.gate = gate))

/-- The loop of `rib_delete_ipv4`. -/
def findDeleted (n : Node) (type : Nat) (gate : Option UInt32) (ifindex : UInt32) : Option Nat :=
  n.routes.find? fun a => !(n.rib a).removed && (n.rib a).type = type && deletes gate ifindex (n.rib a)

/-- The selected entry that the loop sees if it finds none to delete. -/
def findFib (n : Node) : Option Nat := n.routes.reverse.find? fun a => !(n.rib a).removed && (n.rib a).flags.selected

/-- The kernel has deleted the selected route: its flags go. -/
def forgetFib (n : Node) (a : Nat) : Node :=
  setRib n a fun rib =>
    { rib with nexthop := rib.nexthop.map ({ · with fib := false }), flags := { rib.flags with selected := false } }

def ribDeleteIpv4 (n : Node) (type : Nat) (gate : Option UInt32) (ifindex : UInt32) : Node :=
  match findDeleted n type gate ifindex with
  | some a =>
    if (n.rib a).type = zebraRouteConnect ∧ (n.rib a).nexthop.head?.any (·.type = .ifindex) ∧ (n.rib a).refcnt ≠ 0 then
      setRib n a fun rib => { rib with refcnt := rib.refcnt - 1 }
    else ribDelnode n a
  | none => if type = zebraRouteKernel then (findFib n).elim n (forgetFib n) else n

/-- What happens at a node. The kernel may drop a route by itself, as when an interface goes down. -/
inductive Op where
  | add (type : Nat) (flags : RibFlags) (gate : Option UInt32) (ifindex table metric : UInt32) (distance : UInt8)
  | addMultipath (beyond : UInt8) (type : Nat) (flags : RibFlags) (table metric : UInt32) (distance : UInt8)
      (hops : List (NexthopType × UInt32 × UInt32 × String))
  | delete (type : Nat) (gate : Option UInt32) (ifindex : UInt32)
  | kernelDrops (a : Nat)
  | process (w : World)

def Op.step (s : Option Node) (op : Op) : Option Node :=
  s.bind fun n =>
    match op with
    | .add type flags gate ifindex table metric distance =>
      some (ribAddIpv4 n type flags gate ifindex table metric distance)
    | .addMultipath beyond type flags table metric distance hops =>
      some (ribAddIpv4Multipath n beyond type flags table metric distance hops)
    | .delete type gate ifindex => some (ribDeleteIpv4 n type gate ifindex)
    | .kernelDrops a => some { n with kernel := update n.kernel a none }
    | .process w => ribProcess w n

def emptyNode (id : Nat) (unicast : Bool) (rib : Nat → Rib) : Node :=
  { id, unicast, routes := [], rib, kernel := fun _ => none, brk := 0 }

end Tarpan.ZebraRib
