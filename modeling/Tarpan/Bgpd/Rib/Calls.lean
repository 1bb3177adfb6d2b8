/-
What every call on the tables keeps, from what is kept at one path. A call works on a path at a time, and the path may
be unsettled in between: it was restored, and its flags do not yet tell whether it is counted.
-/
import Tarpan.Bgpd.Rib.Sound

namespace Tarpan.Bgpd

open Base BgpPath

section Calls
variable {α : Type} {env : RibEnv α} {s s' : Rib α} {a : Nat} {rn : RibNode} {ri : BgpPath α} {settled : Bool}

/-- The paths that are counted at all: those of the peers in tables of the main type. -/
def RibEnv.counts (env : RibEnv α) (ri : BgpPath α) : Prop := ri.rn.InMain ∧ ri.peer ≠ env.peerSelf

namespace Rib

/-- `I` holds between calls and `At` while one works on a path, which ends unless `N`. -/
structure Kept (env : RibEnv α) (N : Prop) (I : Rib α → Prop) (At : Bool → Nat → Rib α → Prop) : Prop where
  sound : ∀ {s}, I s → s.Sound
  enter : ∀ {s a ri}, I s → s.path a = some ri → At true a s
  leave : ∀ {s a}, At true a s → I s
  loosen : ∀ {s a} settled, At true a s → At settled a s
  there : ∀ {s settled a}, At settled a s → s.path a = none → N
  reworked : ∀ {s s'}, I s → s.Reworked env s' → I s'
  configured : ∀ {s aggregate aggregateNodes}, I s → ({ s with aggregate, aggregateNodes } : Rib α).Sound →
    I { s with aggregate, aggregateNodes }
  increment : ∀ {s settled a}, At settled a s → EndsUnless N (bgpAggregateIncrement env s a) (At settled a)
  decrement : ∀ {s settled a}, At settled a s → EndsUnless N (bgpAggregateDecrement env s a) (At settled a)
  flags : ∀ {s a mask v}, At false a s → mask.any PathFlag.useability = true → .counted ∉ mask → .damped ∉ mask →
    EndsUnless N (bgpInfoPutFlags env s a mask v) (At true a)
  plain : ∀ {s settled a mask v}, At settled a s → mask.any PathFlag.useability = false → .counted ∉ mask →
    EndsUnless N (bgpInfoPutFlags env s a mask v) (At settled a)
  delete : ∀ {s a}, At false a s → EndsUnless N (s.bgpInfoDelete env a) (At true a)
  restore : ∀ {s a}, At false a s → EndsUnless N (s.bgpInfoRestore env a) (At false a)
  restoreOwn : ∀ {s a ri}, At true a s → s.path a = some ri → ¬ env.counts ri →
    EndsUnless N (s.bgpInfoRestore env a) (At true a)
  put : ∀ {s settled a ri ri'}, At settled a s → s.path a = some ri → ri'.rn = ri.rn → ri'.peer = ri.peer →
    ri'.flags = ri.flags → ri'.dampInfo = ri.dampInfo → At settled a (s.putPath a ri')
  new : ∀ {s ri}, I s → ri.flags .counted = false → ri.flags .damped = false → ri.dampInfo = none →
    (env.counts ri → ri.holddown = true) → At true s.brk (s.bgpInfoNew ri).2
  add : ∀ {s a}, At true a s → EndsUnless N (s.bgpInfoAdd a) I
  reap : ∀ {s a}, At true a s → EndsUnless N (s.bgpInfoReap a) I
  withdraw : ∀ {s a} tNow attrChange, At false a s →
    EndsUnless N (bgpDampWithdraw env s a tNow attrChange) fun r => At true a r.2
  update : ∀ {s settled a} tNow, At settled a s →
    EndsUnless N (bgpDampUpdate env s a tNow) fun r => At settled a r.2 ∧ (r.1 = .suppressed → At true a r.2)
  scan : ∀ {s a ri} tNow, At true a s → s.path a = some ri → ri.dampInfo.isSome →
    EndsUnless N (bgpDampScan env s a tNow) fun r => At true a r.2
  clearDamp : ∀ {s a ri b}, At true a s → s.path a = some ri → ri.dampInfo = some b →
    EndsUnless N (bgpDampInfoFree env s b true) I
  free : ∀ {s a}, I s → (RibCall.free a).Legal s → EndsUnless N (bgpInfoFree env s a) I

theorem findPath_found {found : BgpPath α → Bool} (h : s.findPath rn found = some a) (hri : s.path a = some ri) :
    found ri = true := by
  have := List.find?_some h
  rwa [hri] at this

theorem isFrom_peer {peer : Nat} {type : UInt8} {subType : RouteSubType} (h : isFrom peer type subType ri = true) :
    ri.peer = peer := (of_decide_eq_true h).1

namespace Kept

variable {N : Prop} {I : Rib α → Prop} {At : Bool → Nat → Rib α → Prop} (K : Kept env N I At)
include K

theorem get {β : Type} {Q : β → Prop} {f : BgpPath α → Option β} (h : At settled a s)
    (hf : ∀ ri, s.path a = some ri → EndsUnless N (f ri) Q) : EndsUnless N (s.path a >>= f) Q := by
  cases hri : s.path a with
  | none => exact ⟨fun _ => K.there h hri, .none⟩
  | some ri => exact hf ri hri

theorem left {x : Option (Rib α)} (h : EndsUnless N x (At true a)) : EndsUnless N x I := h.imp id fun _ => K.leave

theorem found {found : BgpPath α → Bool} (h : I s) (ha : s.findPath rn found = some a) : At true a s := by
  obtain ⟨ri, hri, -⟩ := (K.sound h).findPath ha
  exact K.enter h hri

section
variable (h : At settled a s)
include h

theorem modify {f : BgpPath α → BgpPath α} (hrn : ∀ ri, (f ri).rn = ri.rn)
    (hpeer : ∀ ri, (f ri).peer = ri.peer) (hflags : ∀ ri, (f ri).flags = ri.flags)
    (hdamp : ∀ ri, (f ri).dampInfo = ri.dampInfo) : EndsUnless N (s.modifyPath a f) (At settled a) := by
  cases hri : s.path a with
  | none => exact ⟨fun _ => K.there h hri, by unfold modifyPath; rw [hri]; exact .none⟩
  | some ri =>
    refine .of_ends ((ends_modifyPath hri).mono ?_)
    rintro _ rfl
    exact K.put h hri (hrn ri) (hpeer ri) (hflags ri) (hdamp ri)

theorem putAttr (attr : α) : EndsUnless N (s.modifyPath a fun ri => withTag { ri with attr }) (At settled a) :=
  K.modify h (fun _ => withTag_rn _) (fun _ => withTag_peer _) (fun _ => withTag_flags _)
    fun _ => withTag_dampInfo _

theorem setAttr (attr : α) : EndsUnless N (s.modifyPath a ({ · with attr })) (At settled a) :=
  K.modify h (fun _ => rfl) (fun _ => rfl) (fun _ => rfl) fun _ => rfl

/-! ## Updates -/

theorem lookup (answer : NexthopAnswer) : EndsUnless N (bgpNexthopLookup s a answer) fun r => At settled a r.2 := by
  cases answer with
  | link => exact .some h
  | resolved valid metric =>
    refine (K.modify h (fun ri => ?_) (fun ri => ?_) (fun ri => ?_) fun ri => ?_).bind fun s1 h1 => .some h1
    · split <;> rfl
    · split <;> rfl
    · split <;> rfl
    · unfold dampInfo
      split
      · unfold getExtra
        cases ri.extra <;> rfl
      · cases ri.extra <;> rfl

end

theorem check (h : At false a s) (answer : NexthopAnswer) : EndsUnless N (checkNexthop env s a answer) (At true a) := by
  refine K.get h fun ri _ => .ite (fun _ => ?_) fun _ => K.flags h rfl (by decide) (by decide)
  exact (K.lookup h answer).bind fun r hr => K.flags hr rfl (by decide) (by decide)

theorem accept (h : At false a s) (answer : NexthopAnswer) : EndsUnless N (acceptPath env s a answer) I := by
  exact (K.check h answer).bind fun s1 h1 => K.left (K.increment h1)

theorem remove (h : At true a s) : EndsUnless N (bgpRibRemove env s a) I := by
  refine (K.decrement h).bind fun s1 h1 => K.get h1 fun ri _ => .ite (fun _ => .some (K.leave h1)) fun _ => ?_
  exact K.left (K.delete (K.loosen _ h1))

theorem ribWithdraw (h : At true a s) (tNow : Int) : EndsUnless N (bgpRibWithdraw env s a tNow) I := by
  refine K.get h fun ri _ => .ite (fun _ => ?_) fun _ => K.remove h
  refine (K.withdraw tNow false (K.loosen _ h)).bind ?_
  rintro ⟨status, s1⟩ h1
  exact .ite (fun _ => K.left (K.decrement h1)) fun _ => K.remove h1

section
variable (ri : BgpPath α)

theorem restoreRemoved (h : At false a s) : EndsUnless N (restoreRemoved env s a ri) (At false a) :=
  .ite (fun _ => K.restore h) fun _ => .some h

theorem unsetStale (h : At settled a s) : EndsUnless N (unsetStale env s a ri) (At settled a) :=
  .ite (fun _ => K.plain h rfl (by decide)) fun _ => .some h

theorem updateSame (h : At true a s) (tNow : Int) : EndsUnless N (updateSame env s a ri tNow) I := by
  refine (K.plain h rfl (by decide)).bind fun s1 h1 => .ite (fun _ => ?_) fun _ => ?_
  · refine (K.update tNow h1).bind ?_
    rintro ⟨status, s2⟩ ⟨h2, -⟩
    exact .ite (fun _ => K.left (K.increment h2)) fun _ => .some (K.leave h2)
  · exact K.left (K.unsetStale ri h1)

/-- The path is valid before it is counted, until a flap counts it or its next hop is checked. -/
theorem updateChanged (h : At true a s) (attr : α) (tNow : Int) (answer : NexthopAnswer) :
    EndsUnless N (updateChanged env s a ri attr tNow answer) I := by
  refine (K.restoreRemoved ri (K.loosen _ h)).bind fun s1 h1 => (K.unsetStale ri h1).bind fun s2 h2 => ?_
  refine (K.plain h2 rfl (by decide)).bind fun s3 h3 => (K.decrement h3).bind fun s4 h4 => ?_
  have himplicit : EndsUnless N (implicitWithdraw env s4 a tNow) (At false a) := by
    refine K.get h4 fun ri' _ => .ite (fun _ => .map ?_) fun _ => .some h4
    exact (K.withdraw tNow true h4).imp id fun r hr => K.loosen _ hr
  refine himplicit.bind fun s5 h5 => (K.putAttr h5 attr).bind fun s6 h6 => .ite (fun _ => ?_) fun _ =>
    K.accept h6 answer
  refine (K.update tNow h6).bind ?_
  rintro ⟨status, s7⟩ ⟨h7, hsup⟩
  exact .ite (fun hstat => .some (K.leave (hsup hstat))) fun _ => K.accept h7 answer

end

section
variable (h : I s) (hflags : ∀ f, ri.flags f = false) (hdamp : ri.dampInfo = none)
include h hflags hdamp

/-- A path that a peer announces is not in use yet. -/
theorem newPath : At false s.brk (s.bgpInfoNew ri.withTag).2 := by
  have hnot : ∀ f, ri.withTag.flags f = false := by
    intro f
    rw [withTag_flags, hflags]
  refine K.loosen _ (K.new h (hnot _) (hnot _) (by rw [withTag_dampInfo, hdamp]) fun _ => ?_)
  unfold holddown
  rw [hnot .valid]
  rfl

theorem updateNew (answer : NexthopAnswer) : EndsUnless N (updateNew env s ri answer) I := by
  refine (K.check (K.newPath h hflags hdamp) answer).bind fun s2 h2 => ?_
  exact (K.increment h2).bind fun s3 h3 => K.add h3

end

section Equality
variable [DecidableEq α]

section
variable (h : I s) (rn : RibNode) (peer : Nat) (type : UInt8) (subType : RouteSubType) (attr : Option α)
include h

theorem updateMain (tNow : Int) (answer : NexthopAnswer) :
    EndsUnless N (bgpUpdateMain env s rn peer type subType attr tNow answer) I := by
  unfold bgpUpdateMain
  split
  · rename_i a attr ha
    have hat := K.found h ha
    exact K.get hat fun ri _ => .ite (fun _ => K.updateSame ri hat tNow) fun _ =>
      K.updateChanged ri hat attr tNow answer
  · exact K.updateNew h (fun _ => rfl) rfl answer
  · rename_i a ha
    exact K.remove (K.found h ha)
  · exact .some h

theorem updateRsclient (rsclient : Nat) :
    EndsUnless N (bgpUpdateRsclient env s rsclient rn peer type subType attr) I := by
  refine .ite (fun _ => .some h) fun _ => ?_
  split
  · rename_i a attr ha
    have hat := K.found h ha
    refine K.get hat fun ri _ => .ite (fun _ => K.left (K.plain hat rfl (by decide))) fun _ => ?_
    refine (K.restoreRemoved ri (K.loosen _ hat)).bind fun s1 h1 => (K.plain h1 rfl (by decide)).bind fun s2 h2 => ?_
    refine (K.putAttr h2 attr).bind fun s3 h3 => K.left (K.flags h3 rfl (by decide) (by decide))
  · exact (K.flags (K.newPath h (fun _ => rfl) rfl) rfl (by decide) (by decide)).bind fun s2 h2 => K.add h2
  · rename_i a ha
    exact K.remove (K.found h ha)
  · exact .some h

end

end Equality

/-! ## Withdrawals and scans -/

theorem withdrawPath (h : I s) (rn : RibNode) (peer : Nat) (type : UInt8) (subType : RouteSubType) (tNow : Int) :
    EndsUnless N (withdrawPath env s rn peer type subType tNow) I := by
  unfold Bgpd.withdrawPath
  split
  · rename_i a ha
    have hat := K.found h ha
    exact K.get hat fun ri _ => .ite (fun _ => .some h) fun _ => K.ribWithdraw hat tNow
  · exact .some h

theorem clear (h : I s) (rn : RibNode) (peer : Nat) (mine nsf : Bool) :
    EndsUnless N (bgpClearRouteNode env s rn peer mine nsf) I := by
  unfold bgpClearRouteNode
  split
  · rename_i a ha
    have hat := K.found h ha
    refine K.get hat fun ri _ => .ite (fun _ => ?_) fun _ => K.remove hat
    exact K.left (K.plain hat rfl (by decide))
  · exact .some h

theorem scanPath (h : At true a s) (onlink : Bool) (answer : NexthopAnswer) (tNow : Int) :
    EndsUnless N (scanPath env s a onlink answer tNow) I := by
  refine K.get h fun ri _ => .ite (fun _ => ?_) fun _ => .some (K.leave h)
  have hnh : EndsUnless N (scanNexthop env s a ri onlink answer) fun r => At true a r.2 :=
    .ite (fun _ => .some h) fun _ => K.lookup h answer
  refine hnh.bind ?_
  rintro ⟨valid, s1⟩ h1
  have hvalid : EndsUnless N (scanValid env s1 a valid) (At true a) := by
    refine K.get h1 fun ri1 _ => .ite (fun _ => .some h1) fun _ => .ite (fun _ => ?_) fun _ => ?_
    · exact (K.decrement h1).bind fun s2 h2 => K.flags (K.loosen _ h2) rfl (by decide) (by decide)
    · exact (K.flags (K.loosen _ h1) rfl (by decide) (by decide)).bind fun s2 h2 => K.increment h2
  refine hvalid.bind fun s2 h2 => ?_
  refine K.get h2 fun ri2 hri2 => .ite (fun hdamp => (K.scan tNow h2 hri2 hdamp.2).bind ?_) fun _ => .some (K.leave h2)
  rintro ⟨reused, s3⟩ h3
  exact .ite (fun _ => K.left (K.increment h3)) fun _ => .some (K.leave h3)

/-! ## Routes of the router itself -/

theorem selfWithdraw (h : I s) (rn : RibNode) (found : BgpPath α → Bool) :
    EndsUnless N (selfWithdraw env s rn found) I := by
  unfold Bgpd.selfWithdraw
  split
  · rename_i a ha
    refine (K.decrement (K.found h ha)).bind fun s1 h1 => ?_
    exact K.left (K.delete (K.loosen _ h1))
  · exact .some h

/-- What is not counted may be restored when its attributes have been marked as changed. -/
theorem marked (h : At true a s) (hri : s.path a = some ri) (hown : ¬ env.counts ri) :
    EndsUnless N (bgpInfoSetFlag env s a [.attrChanged]) fun s1 =>
      At true a s1 ∧ EndsUnless N (s1.bgpInfoRestore env a) (At true a) := by
  refine ((K.plain h rfl (by decide)).and (ends_bgpInfoPutFlags hri).gives).imp id ?_
  rintro s1 ⟨h1, hputs⟩
  refine ⟨h1, K.restoreOwn h1 hputs.path_self fun hcnts => hown ?_⟩
  unfold RibEnv.counts at hcnts ⊢
  rwa [env.flagged_rn] at hcnts

section Equality
variable [DecidableEq α]

theorem selfUpdate (h : I s) {found : BgpPath α → Bool} (hpeer : ri.peer = env.peerSelf)
    (hcnt : ri.flags .counted = false) (hdmp : ri.flags .damped = false) (hdamp : ri.dampInfo = none)
    (hfound : ∀ ri, found ri = true → ri.peer = env.peerSelf) : EndsUnless N (selfUpdate env s found ri) I := by
  unfold Bgpd.selfUpdate
  split
  · rename_i a ha
    have hat := K.found h ha
    refine K.get hat fun old hold => .ite (fun _ => .some h) fun _ => ?_
    have hown : ¬ env.counts old := fun hcnts => hcnts.2 (hfound old (findPath_found ha hold))
    refine (K.marked hat hold hown).bind ?_
    rintro s1 ⟨h1, hrestore⟩
    have hgo : EndsUnless N (restoreOrDecrement env s1 a old) (At true a) :=
      .ite (fun _ => hrestore) fun _ => K.decrement h1
    refine hgo.bind fun s2 h2 => (K.setAttr h2 ri.attr).bind fun s3 h3 => ?_
    exact K.left (K.increment h3)
  · have h1 := K.new h hcnt hdmp hdamp fun hcnts => absurd hpeer hcnts.2
    exact (K.increment h1).bind fun s2 h2 => K.add h2

theorem staticRsclient (h : I s) (rsclient : Nat) (rn : RibNode) (attr : Option α) :
    EndsUnless N (bgpStaticUpdateRsclient env s rsclient rn attr) I := by
  unfold bgpStaticUpdateRsclient
  dsimp only
  split
  · rename_i a attr ha
    obtain ⟨ri, hri, -⟩ := (K.sound h).findPath ha
    have hown : ¬ env.counts ri := fun hcnts => hcnts.2 (isFrom_peer (findPath_found ha hri))
    have hat := K.enter h hri
    refine K.get hat fun ri' hri' => .ite (fun _ => .some h) fun _ => (K.marked hat hri hown).bind ?_
    rintro s1 ⟨h1, hrestore⟩
    have hgo : EndsUnless N (Bgpd.restoreRemoved env s1 a ri') (At true a) := .ite (fun _ => hrestore) fun _ => .some h1
    exact hgo.bind fun s2 h2 => K.left (K.setAttr h2 attr)
  · exact K.add (K.new h rfl rfl rfl fun hcnts => absurd rfl hcnts.2)
  · unfold bgpStaticWithdrawRsclient
    split
    · rename_i a ha
      exact K.left (K.delete (K.loosen _ (K.found h ha)))
    · exact .some h

end Equality

theorem unset (h : I s) (k : RibNode) :
    EndsUnless N (bgpAggregateUnset env s k) fun s' => I s' ∧ k ∉ s'.aggregateNodes := by
  refine .ite (fun hk => ?_) fun hk => .some ⟨h, fun hmem => hk ((K.sound h).aggregate hmem)⟩
  refine (EndsUnless.of_ends (reworked_bgpAggregateDelete (K.sound h) hk)).bind fun s1 hr => ?_
  have h1 := K.reworked h hr
  exact .some ⟨K.configured h1 ((K.sound h1).forget k), (K.sound h1).nodup.not_mem_erase⟩

theorem set (h : I s) (k : RibNode) (summaryOnly asSet : Bool) :
    EndsUnless N (bgpAggregateSet env s k summaryOnly asSet) I := by
  refine (K.unset h k).bind ?_
  rintro s1 ⟨h1, hnot⟩
  have h2 := K.configured h1 ((K.sound h1).configure { summaryOnly, asSet } hnot)
  refine .ite (fun _ => .some h2) fun _ => .of_ends ?_
  refine (reworked_bgpAggregateRoute (K.sound h2) ?_ none none nofun).mono fun _ => K.reworked h2
  exact s1.aggregate_configure k _

theorem exec [DecidableEq α] {call : RibCall α} (h : I s) (hleg : call.Legal s)
    (htimer : ∀ tNow turns, call = .reuseTimer tNow turns → EndsUnless N (call.exec env s) I) :
    EndsUnless N (call.exec env s) I := by
  cases call with
  | update rn peer attr tNow answer clients =>
    refine (K.updateMain h rn peer _ _ attr tNow answer).bind fun s1 h1 => ?_
    exact .foldlM h1 fun s2 h2 c _ => K.updateRsclient h2 rn peer _ _ c.2 c.1
  | withdraw rn peer tNow clients =>
    have hclients : EndsUnless N
      (clients.foldlM (fun s c => bgpWithdrawRsclient env s c rn peer zebraRouteBgp .normal tNow)
        s) I := .foldlM h fun s2 h2 c _ => .ite (fun _ => .some h2) fun _ => K.withdrawPath h2 _ peer _ _ tNow
    exact hclients.bind fun s1 h1 => K.withdrawPath h1 rn peer _ _ tNow
  | clear rn peer mine nsf => exact K.clear h rn peer mine nsf
  | scan a onlink answer tNow =>
    obtain ⟨ri, hri, -⟩ := hleg
    exact K.scanPath (K.enter h hri) onlink answer tNow
  | staticRsclient rsclient rn attr => exact K.staticRsclient h rsclient rn attr
  | static rn attr | redistribute rn _ attr =>
    cases attr with
    | none => exact K.selfWithdraw h rn _
    | some attr => exact K.selfUpdate h rfl rfl rfl rfl fun ri hri => (of_decide_eq_true hri).1
  | mark a mask v =>
    obtain ⟨⟨ri, hri⟩, hmask⟩ := hleg
    refine K.left (K.plain (K.enter h hri) ?_ fun hmem => (by cases hmask _ hmem))
    rw [List.any_eq_false]
    intro f hf huse
    have hsel := hmask f hf
    cases f <;> cases hsel <;> cases huse
  | reap a =>
    obtain ⟨ri, hri, -⟩ := hleg
    exact K.reap (K.enter h hri)
  | free a => exact K.free h hleg
  | reuseTimer tNow turns => exact htimer tNow turns rfl
  | clearDamp a =>
    obtain ⟨ri, b, hri, -, hb⟩ := hleg
    have hat := K.enter h hri
    show EndsUnless N (s.path a >>= fun ri => ri.dampInfo >>= fun b => bgpDampInfoFree env s b true) I
    rw [hri]
    show EndsUnless N (ri.dampInfo >>= fun b => bgpDampInfoFree env s b true) I
    rw [hb]
    exact K.clearDamp hat hri hb
  | aggregate k summaryOnly asSet => exact K.set h k summaryOnly asSet
  | noAggregate k => exact (K.unset h k).imp id fun _ h => h.1

end Kept

end Rib

end Calls

end Tarpan.Bgpd
