/-
Route flap damping (bgpd/bgp_damp.c). A path that flaps has a record with its penalty. Records of damped paths are in
the reuse list of the time at which they are looked at again, all others are in one list more, and the reuse timer takes
the list of its time from the head that goes round.
-/
import Tarpan.Bgpd.Rib.Aggregate

namespace Tarpan.Bgpd

open Function

section Damp
variable {α : Type}

/-- `BGP_DAMP_NONE`, `BGP_DAMP_USED` and `BGP_DAMP_SUPPRESSED`. -/
inductive DampStatus where
  | none | used | suppressed
  deriving DecidableEq

/-- `DEFAULT_PENALTY`, or half of it. -/
def penaltyOf (attrChange : Bool) : Nat := if attrChange then 500 else 1000

/-- `bgp_damp_decay`; `DELTA_T` is 5. -/
def bgpDampDecay (cfg : DampConfig) (tdiff : Int) (penalty : Nat) : Nat :=
  let i := tdiff.tdiv 5
  if i = 0 then penalty
  else if i < 0 ∨ cfg.decayArraySize ≤ i.toNat then 0
  else cfg.decayed i.toNat penalty

def bgpReuseIndex (cfg : DampConfig) (reuseOffset penalty : Nat) : Nat :=
  let i := cfg.scaled penalty
  let i := if i < 0 ∨ cfg.reuseIndexSize ≤ i.toNat then cfg.reuseIndexSize - 1 else i.toNat
  let index := cfg.reuseIndex i - cfg.reuseIndex 0
  ((reuseOffset + index) % 2 ^ 32).toNat % cfg.reuseListSize

namespace Rib

def putDamp (s : Rib α) (b : Nat) (bdi : DampInfo) : Rib α :=
  { s with damp := { s.damp with info := update s.damp.info b (some bdi) } }

def modifyDamp (s : Rib α) (b : Nat) (f : DampInfo → DampInfo) : Option (Rib α) :=
  (s.damp.info b).map fun bdi => s.putDamp b (f bdi)

/-- The heads of the lists: a reuse list, or the list of all other records. -/
def dampHead (s : Rib α) : Option Nat → Option Nat
  | some index => s.damp.reuseList index
  | none => s.damp.noReuseList

def putDampHead (s : Rib α) (slot head : Option Nat) : Rib α :=
  match slot with
  | some index => { s with damp := { s.damp with reuseList := update s.damp.reuseList index head } }
  | none => { s with damp := { s.damp with noReuseList := head } }

/-- The pointer to the record before is changed, where there is one to change. -/
def putPrev (s : Rib α) (b prev : Option Nat) : Option (Rib α) :=
  match b with
  | some b => s.modifyDamp b ({ · with prev })
  | none => some s

/-- `BGP_INFO_ADD`: a record goes to the head of a list. -/
def bgpInfoLink (s : Rib α) (slot : Option Nat) (b : Nat) : Option (Rib α) := do
  let head := s.dampHead slot
  let s ← s.modifyDamp b ({ · with prev := none, next := head })
  let s ← s.putPrev head (some b)
  some (s.putDampHead slot (some b))

/-- `BGP_INFO_DEL`: a record goes out of a list. -/
def bgpInfoUnlink (s : Rib α) (slot : Option Nat) (b : Nat) : Option (Rib α) := do
  let bdi ← s.damp.info b
  let s ← s.putPrev bdi.next bdi.prev
  let bdi ← s.damp.info b
  match bdi.prev with
  | some c => s.modifyDamp c ({ · with next := bdi.next })
  | none => some (s.putDampHead slot bdi.next)

end Rib

variable (env : RibEnv α)

section
variable (s : Rib α) (b : Nat)

def bgpReuseListAdd : Option (Rib α) := do
  let bdi ← s.damp.info b
  let index := bgpReuseIndex env.damp s.damp.reuseOffset bdi.penalty
  let s := s.putDamp b { bdi with index }
  s.bgpInfoLink (some index) b

/-- `bgp_reuse_list_delete`; there is no list with a negative index. -/
def bgpReuseListDelete : Option (Rib α) := do
  let bdi ← s.damp.info b
  if bdi.index < 0 then none else s.bgpInfoUnlink (some bdi.index.toNat) b

def bgpDampListAdd : Option (Rib α) := s.bgpInfoLink none b
def bgpDampListDel : Option (Rib α) := s.bgpInfoUnlink none b

def Rib.putDampInfo (a : Nat) (b : Option Nat) : Option (Rib α) :=
  s.modifyPath a fun ri => { ri with extra := some { ri.getExtra with dampInfo := b } }

/-- The record leaves its list, which the flag of its path tells. -/
def dampUnlink (damped : Bool) : Option (Rib α) := if damped then bgpReuseListDelete s b else bgpDampListDel s b

/-- A path that was kept for its record only. -/
def deleteWithdrawn (bdi : DampInfo) (withdraw : Bool) : Option (Rib α) :=
  if bdi.lastrecord = .withdraw ∧ withdraw then s.bgpInfoDelete env bdi.binfo else some s

def bgpDampInfoFree (withdraw : Bool) : Option (Rib α) := do
  let bdi ← s.damp.info b
  let ri ← s.path bdi.binfo
  let _ ← ri.extra
  let s ← s.putDampInfo bdi.binfo none
  let s ← dampUnlink s b (ri.flags .damped)
  let s ← bgpInfoUnsetFlag env s bdi.binfo [.history, .damped]
  let s ← deleteWithdrawn env s bdi withdraw
  some { s with damp := { s.damp with info := update s.damp.info b none } }

end

section
variable (s : Rib α) (a : Nat) (tNow : Int)

def bgpInfoExtraFree (ri : BgpPath α) : Option (Rib α) :=
  match ri.dampInfo with
  | some b => bgpDampInfoFree env s b false
  | none => some s

def bgpInfoFree : Option (Rib α) := do
  let ri ← s.path a
  let s ← bgpInfoExtraFree env s ri
  some { s with path := update s.path a none }

/-- The record that `bgp_damp_withdraw` makes, or the penalty that it adds. -/
def dampFlap (ri : BgpPath α) (tNow : Int) (attrChange : Bool) : Option (Nat × Nat × Rib α) :=
  match ri.dampInfo with
  | none => do
    let b := s.brk
    let s := { s.putDamp b
      { penalty := penaltyOf attrChange, startTime := tNow, tUpdated := tNow, binfo := a, rn := ri.rn }
      with brk := b + 1 }
    let s ← s.putDampInfo a (some b)
    let s ← bgpDampListAdd s b
    some (b, 0, s)
  | some b => do
    let bdi ← s.damp.info b
    let penalty := bgpDampDecay env.damp (tNow - bdi.tUpdated) bdi.penalty + penaltyOf attrChange
    let penalty := if penalty > env.damp.ceiling then env.damp.ceiling else penalty
    some (b, bdi.penalty, s.putDamp b { bdi with penalty, flap := bdi.flap + 1 })

def bgpDampWithdraw (attrChange : Bool) : Option (DampStatus × Rib α) := do
  let ri ← s.path a
  let (b, lastPenalty, s) ← dampFlap env s a ri tNow attrChange
  let bdi ← s.damp.info b
  if bdi.rn ≠ ri.rn ∨ bdi.binfo ≠ a then none
  else do
    let s := s.putDamp b { bdi with lastrecord := .withdraw, tUpdated := tNow }
    let s ← bgpInfoSetFlag env s a [.history]
    if ri.flags .damped then
      if bdi.penalty ≠ lastPenalty then do
        let s ← bgpReuseListDelete s b
        let s ← bgpReuseListAdd env s b
        some (.suppressed, s)
      else some (.suppressed, s)
    else if bdi.penalty ≥ env.damp.suppressValue then do
      let s ← bgpInfoSetFlag env s a [.damped]
      let s ← s.modifyDamp b ({ · with suppressTime := tNow })
      let s ← bgpDampListDel s b
      let s ← bgpReuseListAdd env s b
      some (.used, s)
    else some (.used, s)

/-- A damped path is used again, with its record among those that are not waited for. -/
def dampReuse (a b : Nat) : Option (Rib α) := do
  let s ← bgpInfoUnsetFlag env s a [.damped]
  let s ← bgpReuseListDelete s b
  let s ← bgpDampListAdd s b
  s.modifyDamp b ({ · with suppressTime := 0 })

/-- What `bgp_damp_update` answers, after the record was decayed to `penalty`. -/
def dampUpdateStatus (a b : Nat) (damped : Bool) (penalty : Nat) : Option (DampStatus × Rib α) :=
  if ¬ damped ∧ penalty < env.damp.suppressValue then some (.used, s)
  else if damped ∧ penalty < env.damp.reuseLimit then (dampReuse env s a b).map (.used, ·)
  else some (.suppressed, s)

/-- `bgp_damp_update`; `penalty > reuse_limit / 2.0` in whole numbers. -/
def bgpDampUpdate : Option (DampStatus × Rib α) := do
  let ri ← s.path a
  match ri.dampInfo with
  | none => some (.used, s)
  | some b => do
    let s ← bgpInfoUnsetFlag env s a [.history]
    let bdi ← s.damp.info b
    let penalty := bgpDampDecay env.damp (tNow - bdi.tUpdated) bdi.penalty
    let s := s.putDamp b { bdi with lastrecord := .update, penalty }
    let (status, s) ← dampUpdateStatus env s a b (ri.flags .damped) penalty
    if 2 * penalty > env.damp.reuseLimit then do
      let s ← s.modifyDamp b ({ · with tUpdated := tNow })
      some (status, s)
    else (bgpDampInfoFree env s b false).map (status, ·)

def bgpDampScan : Option (Bool × Rib α) := do
  let ri ← s.path a
  let b ← ri.dampInfo
  let bdi ← s.damp.info b
  if ri.flags .damped then
    if tNow - bdi.suppressTime ≥ env.damp.maxSuppressTime then do
      let s ← dampReuse env s a b
      let s ← s.modifyDamp b ({ · with penalty := env.damp.reuseLimit, tUpdated := tNow })
      some (bdi.lastrecord = .update, s)
    else some (false, s)
  else
    let penalty := bgpDampDecay env.damp (tNow - bdi.tUpdated) bdi.penalty
    let s := s.putDamp b { bdi with penalty }
    if 2 * penalty ≤ env.damp.reuseLimit then (bgpDampInfoFree env s b true).map (false, ·)
    else (s.modifyDamp b ({ · with tUpdated := tNow })).map (false, ·)

/-- The path of a record is used again. -/
def reusePath (b : Nat) (bdi : DampInfo) : Option (Rib α) := do
  let s ← bgpInfoUnsetFlag env s bdi.binfo [.damped]
  let s ← s.modifyDamp b ({ · with suppressTime := 0 })
  if bdi.lastrecord = .update then do
    let s ← bgpInfoUnsetFlag env s bdi.binfo [.history]
    bgpAggregateIncrement env s bdi.binfo
  else some s

/-- One record of the loop of `bgp_reuse_timer`. -/
def reuseTurn (s : Rib α) (b : Nat) : Option (Rib α) := do
  let bdi ← s.damp.info b
  let penalty := bgpDampDecay env.damp (tNow - bdi.tUpdated) bdi.penalty
  let s := s.putDamp b { bdi with penalty, tUpdated := tNow }
  if penalty < env.damp.reuseLimit then do
    let s ← reusePath env s b bdi
    if 2 * penalty ≤ env.damp.reuseLimit then bgpDampInfoFree env s b true else bgpDampListAdd s b
  else bgpReuseListAdd env s b

end

/-- The loop of `bgp_reuse_timer`. -/
def reuseLoop (tNow : Int) : Nat → Option Nat → Rib α → Option (Rib α)
  | _, none, s => some s
  | 0, some _, _ => none
  | turns + 1, some b, s => do
    let bdi ← s.damp.info b
    let s ← reuseTurn env tNow s b
    reuseLoop tNow turns bdi.next s

def bgpReuseTimer (tNow : Int) (turns : Nat) (s : Rib α) : Option (Rib α) :=
  let bdi := s.damp.reuseList s.damp.reuseOffset
  let s := s.putDampHead (some s.damp.reuseOffset) none
  let s := { s with damp := { s.damp with reuseOffset := (s.damp.reuseOffset + 1) % env.damp.reuseListSize } }
  reuseLoop env tNow turns bdi s

end Damp

end Tarpan.Bgpd
