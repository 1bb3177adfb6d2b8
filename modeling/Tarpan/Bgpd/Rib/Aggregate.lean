/-
Aggregates (bgpd/bgp_route.c). A configured aggregate counts the paths below it that are in use, and one that is
summary-only also counts in each of these paths that it is suppressed. With each change of a path the aggregates above
it are taken down and built again.
-/
import Tarpan.Bgpd.Rib.State

namespace Tarpan.Bgpd

open Function

def zebraRouteBgp : UInt8 := 9

/-- The node `rn` lies below `k`, in the same table. -/
def RibNode.covers (k rn : RibNode) : Bool :=
  k.table = rn.table ∧ k.afi = rn.afi ∧ k.safi = rn.safi ∧ k.rd = rn.rd ∧ k.p.prefixlen < rn.p.prefixlen ∧
    k.p.bits <+: rn.p.bits

/-- The prefix of a path, where the aggregates are configured. -/
def RibNode.inMain (rn : RibNode) : RibNode := { rn with table := .main, rd := none }

section Aggregates
variable {α : Type}

namespace Rib

/-- The paths at the nodes below `k`. -/
def below (s : Rib α) (k : RibNode) : List Nat := (s.nodes.filter (k.covers ·)).flatMap s.info

def putAggregate (s : Rib α) (k : RibNode) (agg : BgpAggregate) : Rib α :=
  { s with aggregate := update s.aggregate k (some agg) }

def addCount (s : Rib α) (k : RibNode) (n : UInt64) : Option (Rib α) :=
  (s.aggregate k).map fun agg => s.putAggregate k { agg with count := agg.count + n }

/-- `suppress` of a path is changed. -/
def putSuppress (s : Rib α) (a : Nat) (ri : BgpPath α) (n : Int) : Rib α :=
  s.putPath a { ri with extra := some { ri.getExtra with suppress := n } }

end Rib

variable (env : RibEnv α)

/-- A path below a summary-only aggregate is suppressed. -/
def suppressPath (agg : BgpAggregate) (s : Rib α) (a : Nat) (ri : BgpPath α) : Option (Rib α) :=
  if agg.summaryOnly then bgpInfoSetFlag env (s.putSuppress a ri (ri.suppress + 1)) a [.attrChanged] else some s

/-- A path of the loops of `bgp_aggregate_route` and `bgp_aggregate_add`; the attributes are merged afterwards. -/
def takeIn (k : RibNode) (del : Option Nat) (st : Rib α × List α) (a : Nat) : Option (Rib α × List α) := do
  let (s, attrs) := st
  let ri ← s.path a
  if ri.holddown ∨ del = some a ∨ ri.subType = .aggregate then some (s, attrs)
  else do
    let agg ← s.aggregate k
    let s ← suppressPath env agg s a ri
    let s ← s.addCount k 1
    some (s, attrs ++ [ri.attr])

/-- The path that comes in with `bgp_aggregate_route`. -/
def takeNew (k : RibNode) (a : Nat) (st : Rib α × List α) : Option (Rib α × List α) := do
  let (s, attrs) := st
  let ri ← s.path a
  let s ← s.addCount k 1
  let agg ← s.aggregate k
  some (if agg.summaryOnly then s.putSuppress a ri (ri.suppress + 1) else s, attrs ++ [ri.attr])

section
variable (s : Rib α) (k : RibNode)

/-- The path that comes in, where there is one. -/
def takeRinew (st : Rib α × List α) : Option Nat → Option (Rib α × List α)
  | some a => takeNew k a st
  | none => some st

/-- The path of the aggregate itself. -/
def addAggregatePath (attr : α) : Option (Rib α) :=
  let (a, s) := s.bgpInfoNew
    { peer := env.peerSelf, type := zebraRouteBgp, subType := .aggregate, attr, rn := k, flags := (· = .valid) }
  s.bgpInfoAdd a

def bgpAggregateRoute (rinew del : Option Nat) : Option (Rib α) := do
  let st ← (s.below k).foldlM (takeIn env k del) (s, [])
  let (s, attrs) ← takeRinew k st rinew
  let agg ← s.aggregate k
  if agg.count > 0 then addAggregatePath env s k (env.aggregateAttr agg.asSet attrs) else some s

/-- Nothing can lie below the node. -/
def RibNode.isHost : Bool := k.p.prefixlen.toNat = 8 * k.afi.octets

def bgpAggregateAdd : Option (Rib α) := if k.isHost then some s else bgpAggregateRoute env s k none none

/-- A path below a summary-only aggregate that goes. -/
def unsuppressPath (agg : BgpAggregate) (s : Rib α) (a : Nat) (ri : BgpPath α) : Option (Rib α) :=
  if agg.summaryOnly ∧ ri.extra.isSome then
    let s := s.putSuppress a ri (ri.suppress - 1)
    if ri.suppress - 1 = 0 then bgpInfoSetFlag env s a [.attrChanged] else some s
  else some s

/-- A path of the loop of `bgp_aggregate_delete`. -/
def takeOut (s : Rib α) (a : Nat) : Option (Rib α) := do
  let ri ← s.path a
  if ri.holddown ∨ ri.subType = .aggregate then some s
  else do
    let agg ← s.aggregate k
    let s ← unsuppressPath env agg s a ri
    s.addCount k (-1)

def isAggregatePath (a : Nat) : Bool :=
  (s.path a).any fun ri => ri.peer = env.peerSelf ∧ ri.type = zebraRouteBgp ∧ ri.subType = .aggregate

def bgpAggregateDelete : Option (Rib α) := do
  if k.isHost then some s
  else do
    let s ← (s.below k).foldlM (takeOut env k) s
    match (s.info k).find? (isAggregatePath env s) with
    | some a => s.bgpInfoDelete env a
    | none => some s

end

namespace Rib

/-- The aggregates above a prefix, from the longest on. -/
def above (s : Rib α) (rn : RibNode) : List RibNode :=
  if rn.safi = .mplsVpn ∨ rn.p.prefixlen = 0 then [] else s.aggregateNodes.filter (·.covers rn.inMain)

end Rib

def bgpAggregateIncrement (s : Rib α) (a : Nat) : Option (Rib α) := do
  let ri ← s.path a
  if ri.holddown then some s
  else (s.above ri.rn).foldlM (fun s k => do
    let s ← bgpAggregateDelete env s k
    bgpAggregateRoute env s k (some a) none) s

def bgpAggregateDecrement (s : Rib α) (a : Nat) : Option (Rib α) := do
  let ri ← s.path a
  (s.above ri.rn).foldlM (fun s k => do
    let s ← bgpAggregateDelete env s k
    bgpAggregateRoute env s k none (some a)) s

def bgpAggregateUnset (s : Rib α) (k : RibNode) : Option (Rib α) := do
  if (s.aggregate k).isSome then do
    let s ← bgpAggregateDelete env s k
    some { s with aggregate := update s.aggregate k none, aggregateNodes := s.aggregateNodes.erase k }
  else some s

/-- An aggregate comes before those with shorter prefixes. -/
def insertAggregate (k : RibNode) : List RibNode → List RibNode
  | [] => [k]
  | n :: nodes => if k.p.prefixlen < n.p.prefixlen then n :: insertAggregate k nodes else k :: n :: nodes

def bgpAggregateSet (s : Rib α) (k : RibNode) (summaryOnly asSet : Bool) : Option (Rib α) := do
  let s ← bgpAggregateUnset env s k
  let s := { s.putAggregate k { summaryOnly, asSet } with aggregateNodes := insertAggregate k s.aggregateNodes }
  bgpAggregateAdd env s k

end Aggregates

end Tarpan.Bgpd
