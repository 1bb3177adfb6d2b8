/-
Comparing two paths to one prefix: the decision process of bgp_route.c (`bgp_info_cmp`) and the one
the Wiser protocol puts in its place (wiser.cpp, `wiser_info_cmp`). Each answers whether the new
path is preferred and whether the two are equal for multipath.
-/
import Tarpan.Bgpd.Aspath.Operations
import Tarpan.Bgpd.Types

namespace Tarpan.Bgpd

open Lib

/-! ## Paths -/

/-- The flags of a path that are read here, without the two that `bgp_best_selection` keeps for
itself. -/
inductive InfoFlag where
  | damped | history | selected | valid | removed
  deriving DecidableEq

/-- `BGP_ROUTE_NORMAL` and the kinds of routes of the local system. -/
inductive RouteSubType where
  | normal | static | aggregate | redistribute
  deriving DecidableEq

/-- `struct bgp_info`; `igpmetric` is there where `struct bgp_info_extra` is. -/
structure BgpInfo where
  peer : Peer
  attr : Attr
  igpmetric : Option UInt32
  flags : InfoFlag → Bool
  subType : RouteSubType

/-- `BGP_INFO_HOLDDOWN`. -/
def BgpInfo.holddown (bi : BgpInfo) : Bool :=
  !bi.flags .valid || (bi.flags .history || bi.flags .damped || bi.flags .removed)

/-- `attr->aspath`, which every path in the table has. -/
def BgpInfo.aspath (bi : BgpInfo) : Aspath := bi.attr.aspath.getD []
def BgpInfo.weight (bi : BgpInfo) : UInt32 := (bi.attr.extra.map (·.weight)).getD 0

def BgpInfo.localPref (bgp : Bgp) (bi : BgpInfo) : UInt32 :=
  if bi.attr.has .localPref then bi.attr.localPref else bgp.defaultLocalPref

def bgpMedValue (attr : Attr) (bgp : Bgp) : UInt32 :=
  if attr.has .multiExitDisc then attr.med
  else if bgp.flagCheck .medMissingAsWorst then 0xFFFFFFFF else 0

def BgpInfo.metric (bi : BgpInfo) : UInt32 := bi.igpmetric.getD 0

def BgpInfo.routerId (bi : BgpInfo) : UInt32 :=
  if bi.attr.has .originatorId then (bi.attr.extra.map (·.originatorId)).getD 0 else bi.peer.remoteId

/-- The length of the cluster list that step 12 compares, in octets. -/
def BgpInfo.clusterLength (bi : BgpInfo) : Nat :=
  if bi.attr.has .clusterList then 4 * ((bi.attr.extra.bind (·.cluster)).getD []).length else 0

def BgpInfo.wiser (messages : Messages) (bi : BgpInfo) : Option Wiser := bi.attr.tarpan.bind (·.wiser messages)

/-! ## The steps -/

/-- One step of the process: the path with the lower number is preferred, equal numbers leave the
decision to the steps that follow. -/
def preferLower (new exist : Nat) : Option Bool :=
  if new < exist then some true else if new > exist then some false else none

def preferHigher (new exist : Nat) : Option Bool := preferLower exist new

theorem preferLower_of_lt {a b : Nat} (h : a < b) : preferLower a b = some true := if_pos h

theorem preferLower_of_gt {a b : Nat} (h : a > b) : preferLower a b = some false := by
  rw [preferLower, if_neg h.le.not_gt, if_pos h]

@[simp] theorem preferLower_self (a : Nat) : preferLower a a = none := by simp [preferLower]

/-- Step 3: routes of the local system are preferred. -/
def localRouteCheck (new exist : BgpInfo) : Option Bool :=
  if new.subType ≠ .normal then some true else if exist.subType ≠ .normal then some false else none

def localChecks (bgp : Bgp) (new exist : BgpInfo) : Option Bool :=
  preferHigher new.weight.toNat exist.weight.toNat
    <|> preferHigher (new.localPref bgp).toNat (exist.localPref bgp).toNat
    <|> localRouteCheck new exist

/-- Step 4: the shorter AS path is preferred. -/
def aspathLengthCheck (bgp : Bgp) (new exist : BgpInfo) : Option Bool :=
  if bgp.flagCheck .aspathIgnore then none
  else if bgp.flagCheck .aspathConfed then
    preferLower (aspathCountHops new.aspath + aspathCountConfeds new.aspath)
      (aspathCountHops exist.aspath + aspathCountConfeds exist.aspath)
  else preferLower (aspathCountHops new.aspath) (aspathCountHops exist.aspath)

/-- Whether step 6 compares the MEDs of two paths. -/
def medComparable (bgp : Bgp) (new exist : BgpInfo) : Bool :=
  let internalAsRoute := aspathCountHops new.aspath == 0 && aspathCountHops exist.aspath == 0
  let confedAsRoute := decide (aspathCountConfeds new.aspath > 0) &&
    decide (aspathCountConfeds exist.aspath > 0) &&
    aspathCountHops new.aspath == 0 && aspathCountHops exist.aspath == 0
  bgp.flagCheck .alwaysCompareMed
    || (bgp.flagCheck .medConfed && confedAsRoute)
    || aspathCmpLeft new.aspath exist.aspath
    || aspathCmpLeftConfed new.aspath exist.aspath
    || internalAsRoute

def medCheck (bgp : Bgp) (new exist : BgpInfo) : Option Bool :=
  if medComparable bgp new exist then
    preferLower (bgpMedValue new.attr bgp).toNat (bgpMedValue exist.attr bgp).toNat
  else none

/-- Step 7: a path from an external peer is preferred to one from an internal peer. -/
def peerTypeCheck (new exist : BgpInfo) : Option Bool :=
  let inner : PeerSort → Bool := fun sort => sort == .ibgp || sort == .confed
  if new.peer.sort == .ebgp && inner exist.peer.sort then some true
  else if exist.peer.sort == .ebgp && inner new.peer.sort then some false
  else none

def pathChecks (bgp : Bgp) (new exist : BgpInfo) : Option Bool :=
  aspathLengthCheck bgp new exist
    <|> preferLower new.attr.origin.toNat exist.attr.origin.toNat
    <|> medCheck bgp new exist
    <|> peerTypeCheck new exist

/-- Step 9: whether two paths of equal metric may be used together. -/
def multipathEq (bgp : Bgp) (new exist : BgpInfo) : Bool :=
  if bgp.flagCheck .aspathMultipathRelax then true
  else if new.peer.sort = .ibgp then aspathCmp new.aspath exist.aspath
  else new.peer.as == exist.peer.as

/-- Step 10: of two external paths the one in use is kept. -/
def oldestCheck (bgp : Bgp) (new exist : BgpInfo) : Option Bool :=
  if !bgp.flagCheck .compareRouterId && new.peer.sort == .ebgp && exist.peer.sort == .ebgp then
    if new.flags .selected then some true else if exist.flags .selected then some false else none
  else none

def neighborAddressCheck (new exist : BgpInfo) : Bool :=
  match sockunionCmp new.peer.suRemote exist.peer.suRemote with
  | .gt => false
  | .lt => true
  | .eq => true

def tieChecks (bgp : Bgp) (new exist : BgpInfo) : Bool :=
  (oldestCheck bgp new exist
    <|> preferLower new.routerId.toNat exist.routerId.toNat
    <|> preferLower new.clusterLength exist.clusterLength).getD (neighborAddressCheck new exist)

/-- Steps 4 to 13, which the two processes have in common. -/
def standardChecks (bgp : Bgp) (new exist : BgpInfo) : Bool × Bool :=
  match pathChecks bgp new exist with
  | some ret => (ret, false)
  | none =>
    if new.metric = exist.metric then (tieChecks bgp new exist, multipathEq bgp new exist)
    else (new.metric < exist.metric, false)

/-! ## The processes -/

/-- `bgp_info_cmp`: what it returns and `paths_eq`. -/
def bgpInfoCmp (bgp : Bgp) : Option BgpInfo → Option BgpInfo → Bool × Bool
  | none, _ => (false, false)
  | some _, none => (true, false)
  | some new, some exist =>
    match localChecks bgp new exist with
    | some ret => (ret, false)
    | none => standardChecks bgp new exist

/-! ## The process of Wiser

`wiser_info_cmp` is written out a second time, from its own text: it repeats the steps of `bgp_info_cmp` and adds one
between 3 and 4. -/

/-- The steps 10 to 13 of `wiser_info_cmp`. -/
def wiserTieSteps (bgp : Bgp) (nw exist : BgpInfo) : Bool :=
  let external := !bgp.flagCheck .compareRouterId && nw.peer.sort == .ebgp && exist.peer.sort == .ebgp
  let newId := if nw.attr.has .originatorId then nw.attr.extra.elim 0 (·.originatorId) else nw.peer.remoteId
  let existId := if exist.attr.has .originatorId then exist.attr.extra.elim 0 (·.originatorId) else exist.peer.remoteId
  let newCluster := if nw.attr.has .clusterList then 4 * ((nw.attr.extra.bind (·.cluster)).getD []).length else 0
  let existCluster :=
    if exist.attr.has .clusterList then 4 * ((exist.attr.extra.bind (·.cluster)).getD []).length else 0
  if external && nw.flags .selected then true
  else if external && exist.flags .selected then false
  else if newId < existId then true
  else if newId > existId then false
  else if newCluster < existCluster then true
  else if newCluster > existCluster then false
  else
    match sockunionCmp nw.peer.suRemote exist.peer.suRemote with
    | .gt => false
    | .lt => true
    | .eq => true

/-- The steps 8 to 13 of `wiser_info_cmp`. -/
def wiserMetricSteps (bgp : Bgp) (nw exist : BgpInfo) : Bool × Bool :=
  let newm := nw.igpmetric.elim 0 id
  let existm := exist.igpmetric.elim 0 id
  if newm < existm then (true, false)
  else if newm > existm then (false, false)
  else
    let pathsEq :=
      if bgp.flagCheck .aspathMultipathRelax then true
      else if nw.peer.sort == .ibgp then aspathCmp nw.aspath exist.aspath
      else nw.peer.as == exist.peer.as
    (wiserTieSteps bgp nw exist, pathsEq)

/-- The steps 4 to 13 of `wiser_info_cmp`. -/
def wiserPathSteps (bgp : Bgp) (nw exist : BgpInfo) : Bool × Bool :=
  let confed := if bgp.flagCheck .aspathConfed then aspathCountConfeds else fun _ => 0
  let newHops := aspathCountHops nw.aspath + confed nw.aspath
  let existHops := aspathCountHops exist.aspath + confed exist.aspath
  let lengths := !bgp.flagCheck .aspathIgnore
  let internalAsRoute := aspathCountHops nw.aspath == 0 && aspathCountHops exist.aspath == 0
  let confedAsRoute := decide (aspathCountConfeds nw.aspath > 0 ∧ aspathCountConfeds exist.aspath > 0 ∧
    aspathCountHops nw.aspath = 0 ∧ aspathCountHops exist.aspath = 0)
  let meds := bgp.flagCheck .alwaysCompareMed || (bgp.flagCheck .medConfed && confedAsRoute) ||
    aspathCmpLeft nw.aspath exist.aspath || aspathCmpLeftConfed nw.aspath exist.aspath || internalAsRoute
  let newMed := bgpMedValue nw.attr bgp
  let existMed := bgpMedValue exist.attr bgp
  let newSort := nw.peer.sort
  let existSort := exist.peer.sort
  if lengths ∧ newHops < existHops then (true, false)
  else if lengths ∧ newHops > existHops then (false, false)
  else if nw.attr.origin < exist.attr.origin then (true, false)
  else if nw.attr.origin > exist.attr.origin then (false, false)
  else if meds ∧ newMed < existMed then (true, false)
  else if meds ∧ newMed > existMed then (false, false)
  else if newSort = .ebgp ∧ (existSort = .ibgp ∨ existSort = .confed) then (true, false)
  else if existSort = .ebgp ∧ (newSort = .ibgp ∨ newSort = .confed) then (false, false)
  else wiserMetricSteps bgp nw exist

/-- `wiser_info_cmp`: what it returns and `paths_eq`. -/
def wiserInfoCmp (messages : Messages) (bgp : Bgp) : Option BgpInfo → Option BgpInfo → Bool × Bool
  | none, _ => (false, false)
  | some _, none => (true, false)
  | some nw, some exist =>
    let newWeight := nw.attr.extra.elim 0 (·.weight)
    let existWeight := exist.attr.extra.elim 0 (·.weight)
    let newPref := if nw.attr.has .localPref then nw.attr.localPref else bgp.defaultLocalPref
    let existPref := if exist.attr.has .localPref then exist.attr.localPref else bgp.defaultLocalPref
    if newWeight > existWeight then (true, false)
    else if newWeight < existWeight then (false, false)
    else if newPref > existPref then (true, false)
    else if newPref < existPref then (false, false)
    else if nw.subType ≠ .normal then (true, false)
    else if exist.subType ≠ .normal then (false, false)
    else
      match nw.wiser messages, exist.wiser messages with
      -- a new path of the same cost loses
      | some wNew, some wExist => if wNew.pathCost < wExist.pathCost then (true, false) else (false, false)
      | _, _ => wiserPathSteps bgp nw exist

/-! ## The two processes step by step -/

section Steps
variable (bgp : Bgp) (nw exist : BgpInfo)

/-- A step that may decide, before the others. -/
def decided (step : Option Bool) (rest : Bool × Bool) : Bool × Bool := step.elim rest (·, false)

@[simp] theorem decided_none (rest : Bool × Bool) : decided none rest = rest := rfl

theorem decided_orElse (step step' : Option Bool) (rest : Bool × Bool) :
    decided (step <|> step') rest = decided step (decided step' rest) := by
  cases step <;> rfl

theorem decided_preferLower (a b : Nat) (rest : Bool × Bool) :
    decided (preferLower a b) rest = if a < b then (true, false) else if a > b then (false, false) else rest := by
  unfold preferLower
  split_ifs <;> rfl

theorem preferLower_orElse_getD (a b : Nat) (step : Option Bool) (last : Bool) :
    (preferLower a b <|> step).getD last = if a < b then true else if a > b then false else step.getD last := by
  unfold preferLower
  split_ifs <;> rfl

theorem oldestCheck_orElse_getD (step : Option Bool) (last : Bool) :
    let external := !bgp.flagCheck .compareRouterId && nw.peer.sort == .ebgp && exist.peer.sort == .ebgp
    (oldestCheck bgp nw exist <|> step).getD last =
      if external && nw.flags .selected then true
      else if external && exist.flags .selected then false else step.getD last := by
  intro external
  unfold oldestCheck
  cases hext : external with
  | false => rw [if_neg (by simp [external, hext])]; rfl
  | true =>
    rw [if_pos (by simpa [external] using hext)]
    cases nw.flags .selected <;> cases exist.flags .selected <;> rfl

theorem wiserTieSteps_eq : wiserTieSteps bgp nw exist = tieChecks bgp nw exist := by
  have hid : ∀ bi : BgpInfo, bi.routerId =
      if bi.attr.has .originatorId then bi.attr.extra.elim 0 (·.originatorId) else bi.peer.remoteId := by
    intro bi
    unfold BgpInfo.routerId
    cases bi.attr.extra <;> rfl
  have hlast := preferLower_orElse_getD nw.clusterLength exist.clusterLength none (neighborAddressCheck nw exist)
  simp only [Option.orElse_eq_orElse, Option.orElse_eq_or, Option.or_none] at hlast
  rw [tieChecks, oldestCheck_orElse_getD, preferLower_orElse_getD, hlast, hid, hid]
  simp only [gt_iff_lt, ← UInt32.lt_iff_toNat_lt]
  rfl

theorem wiserMetricSteps_eq : wiserMetricSteps bgp nw exist =
    if nw.metric = exist.metric then (tieChecks bgp nw exist, multipathEq bgp nw exist)
    else (nw.metric < exist.metric, false) := by
  have hmetric : ∀ bi : BgpInfo, bi.metric = bi.igpmetric.elim 0 id := by
    intro bi
    unfold BgpInfo.metric
    cases bi.igpmetric <;> rfl
  have heq : multipathEq bgp nw exist =
      if bgp.flagCheck .aspathMultipathRelax then true
      else if nw.peer.sort == .ibgp then aspathCmp nw.aspath exist.aspath
      else nw.peer.as == exist.peer.as := by
    simp only [multipathEq, beq_iff_eq]
  rw [wiserMetricSteps, wiserTieSteps_eq, heq, hmetric, hmetric]
  dsimp only
  by_cases hsame : nw.igpmetric.elim 0 id = exist.igpmetric.elim 0 id
  · rw [hsame, if_neg (UInt32.lt_irrefl _), if_neg (UInt32.lt_irrefl _), if_pos rfl]
  by_cases hlt : nw.igpmetric.elim 0 id < exist.igpmetric.elim 0 id
  · rw [if_pos hlt, if_neg hsame, decide_eq_true hlt]
  · have hgt := UInt32.lt_of_le_of_ne (UInt32.not_lt.1 hlt) (Ne.symm hsame)
    rw [if_neg hlt, if_pos hgt, if_neg hsame, decide_eq_false hlt]

theorem decided_aspathLengthCheck (rest : Bool × Bool) : decided (aspathLengthCheck bgp nw exist) rest =
    let confed := if bgp.flagCheck .aspathConfed then aspathCountConfeds else fun _ => 0
    let newHops := aspathCountHops nw.aspath + confed nw.aspath
    let existHops := aspathCountHops exist.aspath + confed exist.aspath
    let lengths := !bgp.flagCheck .aspathIgnore
    if lengths ∧ newHops < existHops then (true, false)
    else if lengths ∧ newHops > existHops then (false, false) else rest := by
  unfold aspathLengthCheck
  cases bgp.flagCheck .aspathIgnore <;> cases bgp.flagCheck .aspathConfed <;> simp [decided_preferLower]

theorem decided_medCheck (rest : Bool × Bool) : decided (medCheck bgp nw exist) rest =
    if medComparable bgp nw exist ∧ bgpMedValue nw.attr bgp < bgpMedValue exist.attr bgp then (true, false)
    else if medComparable bgp nw exist ∧ bgpMedValue nw.attr bgp > bgpMedValue exist.attr bgp then (false, false)
    else rest := by
  unfold medCheck
  cases medComparable bgp nw exist <;> simp [decided_preferLower, UInt32.lt_iff_toNat_lt]

theorem decided_peerTypeCheck (rest : Bool × Bool) : decided (peerTypeCheck nw exist) rest =
    if nw.peer.sort = .ebgp ∧ (exist.peer.sort = .ibgp ∨ exist.peer.sort = .confed) then (true, false)
    else if exist.peer.sort = .ebgp ∧ (nw.peer.sort = .ibgp ∨ nw.peer.sort = .confed) then (false, false)
    else rest := by
  unfold peerTypeCheck
  cases nw.peer.sort <;> cases exist.peer.sort <;> rfl

theorem wiserPathSteps_eq : wiserPathSteps bgp nw exist = standardChecks bgp nw exist := by
  have hstd : standardChecks bgp nw exist = decided (pathChecks bgp nw exist) (wiserMetricSteps bgp nw exist) := by
    rw [standardChecks, wiserMetricSteps_eq]
    cases pathChecks bgp nw exist <;> rfl
  have hmeds : medComparable bgp nw exist = (bgp.flagCheck .alwaysCompareMed || (bgp.flagCheck .medConfed &&
      decide (aspathCountConfeds nw.aspath > 0 ∧ aspathCountConfeds exist.aspath > 0 ∧
        aspathCountHops nw.aspath = 0 ∧ aspathCountHops exist.aspath = 0)) ||
      aspathCmpLeft nw.aspath exist.aspath || aspathCmpLeftConfed nw.aspath exist.aspath ||
      aspathCountHops nw.aspath == 0 && aspathCountHops exist.aspath == 0) := by
    simp only [medComparable, Bool.decide_and, Bool.and_assoc, beq_eq_decide]
  rw [hstd, pathChecks, decided_orElse, decided_orElse, decided_orElse, decided_aspathLengthCheck,
    decided_preferLower, decided_medCheck, decided_peerTypeCheck, hmeds]
  simp only [gt_iff_lt, ← UInt8.lt_iff_toNat_lt]
  rfl

/-- What the added step decides: between two paths with Wiser data, always. -/
def wiserCostCheck (messages : Messages) (nw exist : BgpInfo) : Option Bool :=
  (nw.wiser messages).bind fun wNew => (exist.wiser messages).map fun wExist => decide (wNew.pathCost < wExist.pathCost)

/-- The steps of `wiser_info_cmp` are those of `bgp_info_cmp`, and the comparison of the costs. -/
theorem wiserInfoCmp_some (messages : Messages) : wiserInfoCmp messages bgp (some nw) (some exist) =
    decided (localChecks bgp nw exist) (decided (wiserCostCheck messages nw exist) (standardChecks bgp nw exist)) := by
  have hweight : ∀ bi : BgpInfo, bi.weight = bi.attr.extra.elim 0 (·.weight) := by
    intro bi
    unfold BgpInfo.weight
    cases bi.attr.extra <;> rfl
  have hlocal : ∀ rest, decided (localRouteCheck nw exist) rest =
      if nw.subType ≠ .normal then (true, false) else if exist.subType ≠ .normal then (false, false) else rest := by
    intro rest
    unfold localRouteCheck
    split_ifs <;> rfl
  rw [localChecks, decided_orElse, decided_orElse, preferHigher, preferHigher, decided_preferLower,
    decided_preferLower, hlocal, hweight, hweight, ← wiserPathSteps_eq, wiserCostCheck]
  simp only [gt_iff_lt, ← UInt32.lt_iff_toNat_lt]
  rw [wiserInfoCmp]
  cases nw.wiser messages with
  | none => rfl
  | some wNew =>
    cases exist.wiser messages with
    | none => rfl
    | some wExist => by_cases hcost : wNew.pathCost < wExist.pathCost <;> simp [decided, hcost, BgpInfo.localPref]

theorem bgpInfoCmp_some :
    bgpInfoCmp bgp (some nw) (some exist) = decided (localChecks bgp nw exist) (standardChecks bgp nw exist) := by
  rw [bgpInfoCmp]
  cases localChecks bgp nw exist <;> rfl

end Steps

/-- The comparison of the active protocol handler, where one is active and has one. -/
abbrev ProtocolInfoCmp := Bgp → Option BgpInfo → Option BgpInfo → Bool × Bool

end Tarpan.Bgpd
