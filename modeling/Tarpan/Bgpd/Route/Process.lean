/-
The paths of a node over time (bgp_route.c): paths are added, marked as removed, restored and changed,
advertisements keep references to them, and `bgp_process_main` selects, announces and reaps. Freeing is
explicit: a path is freed with its last reference, and a function that goes on to use a freed path has
no result.
-/
import Tarpan.Bgpd.Route.Selection

namespace Tarpan.Bgpd

open List Function SelectState
open Option (bind_eq_bind bind_some)

/-! ## The node -/

/-- What `bgp_process_main` reads of a path besides what the selection does: whether its type is
`ZEBRA_ROUTE_BGP`, and the flags of changes. -/
structure ProcessInfo where
  zebraBgp : Bool := true
  attrChanged : Bool := false
  igpChanged : Bool := false
  multipathChg : Bool := false

/-- The calls by which a selection becomes known. -/
inductive NodeCall where
  | announceSelected (peer : Nat) (selected : Option InfoPtr)
  | zebraAnnounce (info : InfoPtr)
  | zebraWithdraw (info : InfoPtr)
  deriving DecidableEq

/-- The path that is read by the call. -/
def NodeCall.path : NodeCall → Option InfoPtr
  | announceSelected _ selected => selected
  | zebraAnnounce info => some info
  | zebraWithdraw info => some info

/-- `struct bgp_node` with the paths in memory. `refs` are those references of `lock` that advertisements
hold, `freed` the paths that were freed as they were then, and `calls` the calls that were made. A lock is an `int`:
fewer than `2 ^ 31` references are held at a time. -/
structure NodeState where
  info : List InfoPtr
  mem : InfoPtr → BgpInfo
  aux : InfoPtr → ProcessInfo
  select : SelectState
  lock : InfoPtr → Nat
  refs : InfoPtr → Nat
  freed : List BgpInfo
  calls : List NodeCall

namespace NodeState

/-- A node without paths. -/
def empty (mem : InfoPtr → BgpInfo) (aux : InfoPtr → ProcessInfo) : NodeState :=
  ⟨[], mem, aux, .fresh, fun _ => 0, fun _ => 0, [], []⟩

/-- The path carries `BGP_INFO_SELECTED`. -/
def Selected (n : NodeState) (ri : InfoPtr) : Prop := (n.mem ri).flags .selected = true

/-- `SET_FLAG` and `UNSET_FLAG`. -/
def setFlag (n : NodeState) (ri : InfoPtr) (flag : InfoFlag) (b : Bool) : NodeState :=
  let bi := { n.mem ri with flags := update (n.mem ri).flags flag b }
  { n with mem := update n.mem ri bi }

/-- A call that reads a path. -/
def call (n : NodeState) (c : NodeCall) : Option NodeState :=
  if c.path.all (0 < n.lock ·) then some { n with calls := n.calls ++ [c] } else none

end NodeState

section
variable (n : NodeState) (ri : InfoPtr)

/-- `bgp_info_add` of a newly allocated path. -/
def bgpInfoAdd (bi : BgpInfo) (aux : ProcessInfo) : NodeState :=
  { n with
    info := ri :: n.info
    mem := update n.mem ri bi
    aux := update n.aux ri aux
    select := (n.select.setDmedCheck ri false).setDmedSelected ri false
    lock := update n.lock ri (n.lock ri + 1) }

def bgpInfoUnlock : Option NodeState :=
  if n.lock ri = 0 then none
  else
    let n := { n with lock := update n.lock ri (n.lock ri - 1) }
    some (if n.lock ri = 0 then { n with freed := n.freed ++ [n.mem ri] } else n)

def bgpInfoReap : Option NodeState := bgpInfoUnlock { n with info := n.info.erase ri } ri
def bgpInfoDelete : NodeState := (n.setFlag ri .removed true).setFlag ri .valid false
def bgpInfoRestore : NodeState := (n.setFlag ri .removed false).setFlag ri .valid true

end

/-- The protocol that is active: none, or Wiser with the messages in memory. -/
inductive ActiveProtocol where
  | none
  | wiser (messages : Messages)

def ActiveProtocol.infoCmp : ActiveProtocol → Option ProtocolInfoCmp
  | none => Option.none
  | wiser messages => some (wiserInfoCmp messages)

/-- What a run of `bgp_process_main` depends on: the configuration, the peers of the instance, whether routes go
to the kernel (`fib`), and the paths on which the multipath code sets `BGP_INFO_MULTIPATH_CHG`. -/
structure ProcessEnv where
  bgp : Bgp := {}
  protocol : ActiveProtocol := .none
  maxpaths : BgpMaxpathsCfg := {}
  peers : List Nat := []
  fib : Bool := true
  multipathChg : InfoPtr → Bool := fun _ => false

open ProcessEnv

namespace ProcessEnv

variable (env : ProcessEnv)

/-- The call of `bgp_best_selection`. -/
def best (n : NodeState) : BestPass := bgpBestSelection env.bgp env.protocol.infoCmp env.maxpaths n.mem n.info n.select

/-- The effect of `bgp_best_selection` on the node: it reaps. -/
def bestSelection (n : NodeState) : Option NodeState :=
  (n.info.filter (· ∉ (env.best n).kept)).foldlM bgpInfoReap
    { n with
      select := (env.best n).st
      aux := fun ri => { n.aux ri with multipathChg := (n.aux ri).multipathChg || env.multipathChg ri } }

/-- The branch of a path that is selected again without a change. -/
def processUnchanged (n : NodeState) (oldSelect : InfoPtr) : Option NodeState := do
  let n ← if (n.aux oldSelect).igpChanged || (n.aux oldSelect).multipathChg then n.call (.zebraAnnounce oldSelect)
    else some n
  pure { n with aux := update n.aux oldSelect { n.aux oldSelect with multipathChg := false } }

/-- The flag goes from the old path to the new one. -/
def moveSelected (n : NodeState) (oldSelect newSelect : Option InfoPtr) : NodeState :=
  let n := match oldSelect with
    | some old => n.setFlag old .selected false
    | none => n
  match newSelect with
  | some new =>
    { n.setFlag new .selected true with
      aux := update n.aux new { n.aux new with attrChanged := false, multipathChg := false } }
  | none => n

/-- Where a route goes to the kernel. -/
def fibUpdate (n : NodeState) (oldSelect newSelect : Option InfoPtr) : Option NodeState :=
  let inFib (ri : InfoPtr) : Bool := (n.aux ri).zebraBgp && (n.mem ri).subType == .normal
  if !env.fib then some n
  else match newSelect.filter inFib, oldSelect.filter inFib with
  | some new, _ => n.call (.zebraAnnounce new)
  | none, some old => n.call (.zebraWithdraw old)
  | none, none => some n

/-- The end of `bgp_process_main`: the old path goes if it was removed. -/
def reapOld (n : NodeState) (oldSelect : Option InfoPtr) : Option NodeState :=
  match oldSelect with
  | some old => if (n.mem old).flags .removed then bgpInfoReap n old else some n
  | none => some n

end ProcessEnv

def bgpProcessMain (env : ProcessEnv) (n : NodeState) : Option NodeState := do
  let oldSelect := (env.best n).oldSelect
  let newSelect := (env.best n).newSelect
  let n ← env.bestSelection n
  match oldSelect.filter fun old => newSelect = some old ∧ !(n.aux old).attrChanged with
  | some old => processUnchanged n old
  | none =>
    let n := moveSelected n oldSelect newSelect
    let n ← env.peers.foldlM (fun n peer => n.call (.announceSelected peer newSelect)) n
    let n ← env.fibUpdate n oldSelect newSelect
    reapOld n oldSelect

/-- What happens to a node. A path may be changed in every way but in its flag `BGP_INFO_SELECTED`. -/
inductive NodeStep : NodeState → NodeState → Prop
  | add {n : NodeState} (ri : InfoPtr) (bi : BgpInfo) (aux : ProcessInfo) (hfree : n.lock ri = 0)
      (hflag : bi.flags .selected = false) : NodeStep n (bgpInfoAdd n ri bi aux)
  | delete {n : NodeState} (ri : InfoPtr) (hri : ri ∈ n.info) : NodeStep n (bgpInfoDelete n ri)
  | restore {n : NodeState} (ri : InfoPtr) (hri : ri ∈ n.info) : NodeStep n (bgpInfoRestore n ri)
  | change {n : NodeState} (ri : InfoPtr) (bi : BgpInfo) (aux : ProcessInfo) (hri : 0 < n.lock ri)
      (hflag : bi.flags .selected = (n.mem ri).flags .selected) :
    NodeStep n { n with mem := update n.mem ri bi, aux := update n.aux ri aux }
  | reference {n : NodeState} (ri : InfoPtr) (hri : 0 < n.lock ri) :
    NodeStep n { n with
      lock := update n.lock ri (n.lock ri + 1)
      refs := update n.refs ri (n.refs ri + 1) }
  | release {n n' : NodeState} (ri : InfoPtr) (hri : 0 < n.refs ri)
      (hn : bgpInfoUnlock { n with refs := update n.refs ri (n.refs ri - 1) } ri = some n') : NodeStep n n'
  | process {n n' : NodeState} (env : ProcessEnv) (hn : bgpProcessMain env n = some n') : NodeStep n n'

/-- The nodes that come from one without paths. -/
inductive NodeRun : NodeState → Prop
  | empty (mem : InfoPtr → BgpInfo) (aux : InfoPtr → ProcessInfo) : NodeRun (.empty mem aux)
  | step {n n' : NodeState} (hrun : NodeRun n) (hstep : NodeStep n n') : NodeRun n'

/-! ## The invariant -/

/-- A path has a reference for being in the list, and one for each advertisement; of the paths in the list
one at most is selected, and no other one is. -/
structure NodeOk (n : NodeState) : Prop where
  nodup : n.info.Nodup
  lock : ∀ ri, n.lock ri = (if ri ∈ n.info then 1 else 0) + n.refs ri
  one : ∀ ri rj, ri ∈ n.info → rj ∈ n.info → n.Selected ri → n.Selected rj → ri = rj
  listed : ∀ ri, 0 < n.lock ri → n.Selected ri → ri ∈ n.info
  clear : n.select.Clear n.info
  freed : ∀ bi ∈ n.freed, bi.flags .selected = false

namespace NodeOk

variable {n n' : NodeState} {ri : InfoPtr}

theorem lock_pos (h : NodeOk n) (hri : ri ∈ n.info) : 0 < n.lock ri := by
  rw [h.lock, if_pos hri]
  omega

theorem empty (mem : InfoPtr → BgpInfo) (aux : InfoPtr → ProcessInfo) : NodeOk (.empty mem aux) where
  nodup := nodup_nil
  lock _ := rfl
  one _ _ h := absurd h not_mem_nil
  listed _ h := absurd h (Nat.lt_irrefl 0)
  clear _ h := absurd h not_mem_nil
  freed _ h := absurd h not_mem_nil

/-- Whatever changes in the paths, they carry `BGP_INFO_SELECTED` as before. -/
theorem marked (h : NodeOk n) {mem : InfoPtr → BgpInfo} {aux : InfoPtr → ProcessInfo}
    (hflag : ∀ ri, (mem ri).flags .selected = (n.mem ri).flags .selected) : NodeOk { n with mem, aux } :=
  { h with
    one := fun ri rj hri hrj hsi hsj => h.one ri rj hri hrj ((hflag ri).symm.trans hsi) ((hflag rj).symm.trans hsj)
    listed := fun ri hpos hsel => h.listed ri hpos ((hflag ri).symm.trans hsel) }

end NodeOk

theorem setFlag_flags (n : NodeState) (ri rj : InfoPtr) (flag f : InfoFlag) (b : Bool) :
    ((n.setFlag ri flag b).mem rj).flags f = if rj = ri ∧ f = flag then b else (n.mem rj).flags f := by
  unfold NodeState.setFlag
  dsimp only
  by_cases hri : rj = ri
  · subst hri
    rw [update_self]
    dsimp only
    by_cases hf : f = flag
    · subst hf
      rw [update_self, if_pos ⟨rfl, rfl⟩]
    · rw [update_of_ne hf, if_neg fun h => hf h.2]
  · rw [update_of_ne hri, if_neg fun h => hri h.1]

/-! ## References -/

variable {n : NodeState} {ri : InfoPtr}

/-- A reference is given back: the path is freed with the last one. -/
theorem bgpInfoUnlock_spec (hpos : 0 < n.lock ri) :
    ∃ freed, bgpInfoUnlock n ri = some { n with lock := update n.lock ri (n.lock ri - 1), freed } ∧
      ∀ bi ∈ freed, bi ∈ n.freed ∨ n.lock ri = 1 ∧ bi = n.mem ri := by
  unfold bgpInfoUnlock
  simp only [if_neg (Nat.ne_of_gt hpos), update_self]
  split
  · refine ⟨_, rfl, fun bi hbi => (mem_append.1 hbi).imp id fun hbi => ⟨by omega, ?_⟩⟩
    rwa [mem_singleton] at hbi
  · exact ⟨_, rfl, fun bi hbi => .inl hbi⟩

/-- References of an advertisement come or go. -/
theorem NodeOk.relock (h : NodeOk n) (hri : 0 < n.lock ri) {lock refs : Nat}
    (hsum : lock + n.refs ri = n.lock ri + refs)
    {freed : List BgpInfo} (hfreed : ∀ bi ∈ freed, bi.flags .selected = false) :
    NodeOk { n with lock := update n.lock ri lock, refs := update n.refs ri refs, freed } := by
  refine ⟨h.nodup, fun rj => ?_, h.one, fun rj hrj => h.listed rj ?_, h.clear, hfreed⟩
  · have hlock := h.lock rj
    by_cases heq : rj = ri
    · subst heq
      simp only [update_self]
      omega
    · simp [update_of_ne heq, hlock]
  · dsimp only at hrj
    by_cases heq : rj = ri
    · exact heq ▸ hri
    · rwa [update_of_ne heq] at hrj

theorem NodeOk.release {n n' : NodeState} (h : NodeOk n) (hri : 0 < n.refs ri)
    (hn : bgpInfoUnlock { n with refs := update n.refs ri (n.refs ri - 1) } ri = some n') : NodeOk n' := by
  have hlock := h.lock ri
  obtain ⟨freed, hunl, hfreed⟩ :=
    @bgpInfoUnlock_spec { n with refs := update n.refs ri (n.refs ri - 1) } ri (by dsimp only; omega)
  rw [hunl] at hn
  obtain rfl := Option.some.inj hn
  refine h.relock (by omega) (by dsimp only; omega) fun bi hbi => ?_
  rcases hfreed bi hbi with hbi | ⟨hone, rfl⟩
  · exact h.freed bi hbi
  -- the last reference is not that of the list, so the path is not selected
  dsimp only at hone
  by_contra hsel
  have hin := h.listed ri (by omega) (Bool.of_not_eq_false hsel)
  rw [if_pos hin] at hlock
  omega

theorem NodeOk.reap (h : NodeOk n) (hri : ri ∈ n.info) (hsel : ¬ n.Selected ri) :
    ∃ lock freed, bgpInfoReap n ri = some { n with info := n.info.erase ri, lock, freed } ∧
      NodeOk { n with info := n.info.erase ri, lock, freed } := by
  obtain ⟨freed, hunl, hfreed⟩ := @bgpInfoUnlock_spec { n with info := n.info.erase ri } ri (h.lock_pos hri)
  have hlock := h.lock ri
  rw [if_pos hri] at hlock
  refine ⟨_, freed, hunl, h.nodup.erase ri, ?_, ?_, ?_, ?_, ?_⟩
  · intro rj
    by_cases heq : rj = ri
    · subst heq
      simp only [List.Nodup.mem_erase_iff h.nodup]
      simp
      omega
    · simp only [update_of_ne heq, List.Nodup.mem_erase_iff h.nodup, heq, ne_eq, not_false_eq_true, true_and]
      exact h.lock rj
  · intro ri' rj hri' hrj
    exact h.one ri' rj (mem_of_mem_erase hri') (mem_of_mem_erase hrj)
  · intro rj hpos hselj
    have hne : rj ≠ ri := by
      rintro rfl
      exact hsel hselj
    dsimp only at hpos
    rw [update_of_ne hne] at hpos
    exact (List.Nodup.mem_erase_iff h.nodup).2 ⟨hne, h.listed rj hpos hselj⟩
  · exact fun rj hrj => h.clear rj (mem_of_mem_erase hrj)
  · intro bi hbi
    rcases hfreed bi hbi with hbi | ⟨-, rfl⟩
    · exact h.freed bi hbi
    · simpa [NodeState.Selected] using hsel

theorem NodeOk.reapAll : ∀ {l : List InfoPtr} {n : NodeState}, NodeOk n → l.Nodup →
    (∀ ri ∈ l, ri ∈ n.info ∧ ¬ n.Selected ri) →
    ∃ lock freed, l.foldlM bgpInfoReap n = some { n with info := n.info.filter (· ∉ l), lock, freed } ∧
      NodeOk { n with info := n.info.filter (· ∉ l), lock, freed }
  | [], n, h, _, _ => by
    have hall : n.info.filter (· ∉ ([] : List InfoPtr)) = n.info := filter_eq_self.2 fun _ _ => by simp
    rw [hall]
    exact ⟨n.lock, n.freed, rfl, h⟩
  | x :: l, n, h, hnd, hl => by
    obtain ⟨hx, hnd'⟩ := nodup_cons.1 hnd
    obtain ⟨hin, hsel⟩ := hl x mem_cons_self
    obtain ⟨lock, freed, hreap, hok⟩ := h.reap hin hsel
    have hl' : ∀ ri ∈ l, ri ∈ n.info.erase x ∧ ¬ n.Selected ri := by
      intro ri hri
      obtain ⟨hri', hseli⟩ := hl ri (mem_cons_of_mem _ hri)
      refine ⟨(List.Nodup.mem_erase_iff h.nodup).2 ⟨?_, hri'⟩, hseli⟩
      rintro rfl
      exact hx hri
    obtain ⟨lock', freed', hrest, hok'⟩ := NodeOk.reapAll hok hnd' hl'
    have hfil : (n.info.erase x).filter (· ∉ l) = n.info.filter (· ∉ x :: l) := by
      rw [h.nodup.erase_eq_filter, filter_filter]
      refine filter_congr fun ri _ => ?_
      by_cases hri : ri = x <;> simp [hri]
    rw [hfil] at hrest hok'
    exact ⟨lock', freed', by rw [foldlM_cons, hreap, bind_eq_bind, bind_some, hrest], hok'⟩

/-! ## The parts of `bgp_process_main` -/

theorem ActiveProtocol.infoCmp_none (protocol : ActiveProtocol) (bgp : Bgp) (bi : BgpInfo) :
    (Bgpd.infoCmp bgp protocol.infoCmp (some bi) Option.none).1 = true := by
  cases protocol <;> rfl

theorem NodeState.call_eq {c : NodeCall} (h : ∀ ri, c.path = some ri → 0 < n.lock ri) :
    n.call c = some { n with calls := n.calls ++ [c] } := by
  unfold NodeState.call
  rw [if_pos]
  cases hpath : c.path with
  | none => rfl
  | some ri => simpa using h ri hpath

namespace ProcessEnv

variable (env : ProcessEnv) {n : NodeState}

/-- What is known of the two paths before the flag moves. -/
structure Chosen (n : NodeState) (oldSelect newSelect : Option InfoPtr) : Prop where
  old : ∀ ri ∈ n.info, n.Selected ri ↔ oldSelect = some ri
  old_mem : ∀ ri, oldSelect = some ri → ri ∈ n.info
  new_mem : ∀ ri, newSelect = some ri → ri ∈ n.info
  new_usable : ∀ ri, newSelect = some ri → (n.mem ri).holddown = false

/-- The selection takes out what is removed and not in use, and finds the path in use. -/
theorem bestSelection_spec (h : NodeOk n) : ∃ n', env.bestSelection n = some n' ∧ NodeOk n' ∧
      Chosen n' (env.best n).oldSelect (env.best n).newSelect := by
  have hnull := env.protocol.infoCmp_none env.bgp
  have hkept : (env.best n).kept = n.info.filter fun ri => !reaped (n.mem ri) :=
    bgpBestSelection_kept env.maxpaths h.nodup n.select
  have hclr : (env.best n).st.Clear n.info := bgpBestSelection_clear env.maxpaths h.nodup h.clear
  obtain ⟨hold, hnone⟩ := @bgpBestSelection_oldSelect env.bgp env.protocol.infoCmp env.maxpaths n.mem n.info n.select
  have hnew := (@bgpBestSelection_newSelect _ _ env.maxpaths n.mem _ _ hnull h.nodup h.clear).1
  have hok : NodeOk { n with
      select := (env.best n).st
      aux := fun ri => { n.aux ri with multipathChg := (n.aux ri).multipathChg || env.multipathChg ri } } :=
    { h with clear := hclr }
  have hout : ∀ ri ∈ n.info.filter (· ∉ (env.best n).kept), ri ∈ n.info ∧ ¬ n.Selected ri := by
    intro ri hri
    rw [hkept] at hri
    simp only [mem_filter, decide_eq_true_eq, not_and, Bool.not_eq_true', Bool.not_eq_false] at hri
    have hreap := hri.2 hri.1
    simp only [reaped, Bool.and_eq_true, Bool.not_eq_true'] at hreap
    exact ⟨hri.1, Bool.eq_false_iff.1 hreap.2⟩
  obtain ⟨lock, freed, hreap, hok'⟩ := hok.reapAll (h.nodup.filter _) hout
  have hinfo : n.info.filter (· ∉ n.info.filter (· ∉ (env.best n).kept)) = (env.best n).kept := by
    rw [hkept]
    refine filter_congr fun ri hri => ?_
    simp [hri]
  rw [hinfo] at hreap hok'
  refine ⟨_, hreap, hok', ?_⟩
  -- a path that is in use, or usable, is kept
  have hsel : ∀ ri, ri ∈ n.info → n.Selected ri → ri ∈ (env.best n).kept := by
    intro ri hri hs
    rw [hkept, mem_filter]
    exact ⟨hri, by simp [reaped, show (n.mem ri).flags .selected = true from hs]⟩
  have huse : ∀ ri, (env.best n).newSelect = some ri → ri ∈ (env.best n).kept ∧ (n.mem ri).holddown = false := by
    intro ri hri
    obtain ⟨hin, hhold⟩ := mem_usable.1 (hnew ri hri)
    refine ⟨?_, hhold⟩
    rw [hkept, mem_filter]
    simp only [BgpInfo.holddown, Bool.or_eq_false_iff] at hhold
    exact ⟨hin, by simp [reaped, hhold.2.2]⟩
  refine ⟨?_, fun ri hri => hsel ri (hold ri hri).1 (hold ri hri).2, fun ri hri => (huse ri hri).1,
    fun ri hri => (huse ri hri).2⟩
  intro ri hri
  have hin : ri ∈ n.info := by
    rw [hkept] at hri
    exact mem_of_mem_filter hri
  constructor
  · intro hs
    cases holdSelect : (env.best n).oldSelect with
    | none => exact absurd hs (by rw [NodeState.Selected, hnone holdSelect ri hin]; exact Bool.false_ne_true)
    | some old => rw [h.one old ri (hold old holdSelect).1 hin (hold old holdSelect).2 hs]
  · intro hri
    exact (hold ri hri).2

section
variable (n : NodeState) (oldSelect newSelect : Option InfoPtr)

theorem moveSelected_flags (ri : InfoPtr) (f : InfoFlag) : ((moveSelected n oldSelect newSelect).mem ri).flags f =
      if f = .selected then
        if newSelect = some ri then true else if oldSelect = some ri then false else (n.mem ri).flags f
      else (n.mem ri).flags f := by
  have hsome : ∀ x : InfoPtr, some x = some ri ↔ ri = x := fun x => Option.some_inj.trans eq_comm
  cases oldSelect with
  | none =>
    cases newSelect with
    | none => simp [moveSelected]
    | some new => simp only [moveSelected, setFlag_flags]; split_ifs <;> simp_all
  | some old =>
    cases newSelect with
    | none => simp only [moveSelected, setFlag_flags]; split_ifs <;> simp_all
    | some new => simp only [moveSelected, setFlag_flags]; split_ifs <;> simp_all

theorem moveSelected_frame : ∃ mem aux, moveSelected n oldSelect newSelect = { n with mem, aux } := by
  cases oldSelect <;> cases newSelect <;> exact ⟨_, _, rfl⟩

end

variable {oldSelect newSelect : Option InfoPtr}

/-- The flag moves from the path in use to the new one. -/
theorem moveSelected_spec (h : NodeOk n) (hchosen : Chosen n oldSelect newSelect) :
    NodeOk (moveSelected n oldSelect newSelect) ∧
      ∀ ri ∈ n.info, (moveSelected n oldSelect newSelect).Selected ri ↔ newSelect = some ri := by
  have hflag : ∀ ri, ri ∈ n.info → ((moveSelected n oldSelect newSelect).Selected ri ↔ newSelect = some ri) := by
    intro ri hri
    rw [NodeState.Selected, moveSelected_flags]
    by_cases hnew : newSelect = some ri
    · rw [if_pos hnew]
      exact iff_of_true rfl hnew
    rw [if_neg hnew]
    by_cases hold : oldSelect = some ri
    · rw [if_pos hold]
      exact iff_of_false Bool.false_ne_true hnew
    · rw [if_neg hold]
      exact iff_of_false (fun hs => hold ((hchosen.old ri hri).1 hs)) hnew
  refine ⟨?_, hflag⟩
  obtain ⟨mem, aux, hmove⟩ := moveSelected_frame n oldSelect newSelect
  have hout : ∀ ri, 0 < n.lock ri → (moveSelected n oldSelect newSelect).Selected ri → ri ∈ n.info := by
    intro ri hpos hsel
    by_contra hri
    have hnew : newSelect ≠ some ri := fun heq => hri (hchosen.new_mem ri heq)
    have hold : oldSelect ≠ some ri := fun heq => hri (hchosen.old_mem ri heq)
    rw [NodeState.Selected, moveSelected_flags, if_pos rfl, if_neg hnew, if_neg hold] at hsel
    exact hri (h.listed ri hpos hsel)
  rw [hmove] at hflag hout ⊢
  refine ⟨h.nodup, h.lock, fun ri rj hri hrj hsi hsj => ?_, hout, h.clear, h.freed⟩
  exact Option.some.inj (((hflag ri hri).1 hsi).symm.trans ((hflag rj hrj).1 hsj))

/-- The new path is announced to every peer. -/
theorem announce_spec {newSelect : Option InfoPtr} : ∀ (peers : List Nat) {n : NodeState},
    (∀ ri, newSelect = some ri → 0 < n.lock ri) →
    ∃ calls, peers.foldlM (fun n peer => n.call (.announceSelected peer newSelect)) n = some { n with calls }
  | [], n, _ => ⟨n.calls, rfl⟩
  | peer :: peers, n, h => by
    have hcall := @NodeState.call_eq n (.announceSelected peer newSelect) h
    obtain ⟨calls, hrest⟩ :=
      @announce_spec newSelect peers { n with calls := n.calls ++ [.announceSelected peer newSelect] } h
    exact ⟨calls, by rw [foldlM_cons, hcall, bind_eq_bind, bind_some, hrest]⟩

theorem fibUpdate_spec (hold : ∀ ri, oldSelect = some ri → 0 < n.lock ri)
    (hnew : ∀ ri, newSelect = some ri → 0 < n.lock ri) :
    ∃ calls, env.fibUpdate n oldSelect newSelect = some { n with calls } := by
  unfold fibUpdate
  dsimp only
  split
  · exact ⟨n.calls, rfl⟩
  split
  · rename_i new hfil
    refine ⟨_, NodeState.call_eq ?_⟩
    rintro ri ⟨⟩
    exact hnew new (Option.filter_eq_some_iff.1 hfil).1
  · rename_i old _ hfil
    refine ⟨_, NodeState.call_eq ?_⟩
    rintro ri ⟨⟩
    exact hold old (Option.filter_eq_some_iff.1 hfil).1
  · exact ⟨n.calls, rfl⟩

theorem processUnchanged_spec {oldSelect : InfoPtr} (h : 0 < n.lock oldSelect) :
    ∃ calls aux, processUnchanged n oldSelect = some { n with calls, aux } := by
  have hcall : n.call (.zebraAnnounce oldSelect) = some { n with calls := n.calls ++ [.zebraAnnounce oldSelect] } := by
    apply NodeState.call_eq
    rintro ri ⟨⟩
    exact h
  unfold processUnchanged
  split
  · rw [hcall]
    exact ⟨_, _, rfl⟩
  · exact ⟨_, _, rfl⟩

/-- The old path goes if it was removed: the flag is on the new one, which was not. -/
theorem reapOld_spec (h : NodeOk n)
    (hflag : ∀ ri ∈ n.info, n.Selected ri ↔ newSelect = some ri) (hold : ∀ ri, oldSelect = some ri → ri ∈ n.info)
    (hnew : ∀ ri, newSelect = some ri → ri ∈ n.info)
    (hremoved : ∀ ri, newSelect = some ri → (n.mem ri).flags .removed = false) :
    ∃ n', reapOld n oldSelect = some n' ∧ NodeOk n' ∧ (∀ ri ∈ n'.info, n'.Selected ri ↔ newSelect = some ri) ∧
      ∀ ri, newSelect = some ri → ri ∈ n'.info := by
  cases oldSelect with
  | none => exact ⟨n, rfl, h, hflag, hnew⟩
  | some old =>
    unfold reapOld
    dsimp only
    by_cases hrem : (n.mem old).flags .removed = true
    · have hne : newSelect ≠ some old := by
        intro heq
        rw [hremoved old heq] at hrem
        exact Bool.false_ne_true hrem
      have hin := hold old rfl
      obtain ⟨lock, freed, hreap, hok⟩ := h.reap hin fun hs => hne ((hflag old hin).1 hs)
      rw [if_pos hrem]
      refine ⟨_, hreap, hok, fun ri hri => hflag ri (mem_of_mem_erase hri), fun ri hri => ?_⟩
      refine (List.Nodup.mem_erase_iff h.nodup).2 ⟨?_, hnew ri hri⟩
      rintro rfl
      exact hne hri
    · rw [if_neg hrem]
      exact ⟨n, rfl, h, hflag, hnew⟩

end ProcessEnv

/-- A run of `bgp_process_main` from a node in order: it comes to its end without using a freed path, the node is
in order, and the selected path is the one that the selection has chosen. -/
theorem bgpProcessMain_spec (env : ProcessEnv) (h : NodeOk n) : ∃ n', bgpProcessMain env n = some n' ∧ NodeOk n' ∧
      (∀ ri ∈ n'.info, n'.Selected ri ↔ (env.best n).newSelect = some ri) ∧
      ∀ ri, (env.best n).newSelect = some ri → ri ∈ n'.info := by
  obtain ⟨n1, hbest, hok, hchosen⟩ := env.bestSelection_spec h
  unfold bgpProcessMain
  rw [hbest, bind_eq_bind, bind_some]
  generalize (env.best n).oldSelect = oldSelect at hchosen ⊢
  generalize (env.best n).newSelect = newSelect at hchosen ⊢
  cases hsame : oldSelect.filter fun old => newSelect = some old ∧ !(n1.aux old).attrChanged with
  | some old =>
    obtain ⟨hold, hnew⟩ := Option.filter_eq_some_iff.1 hsame
    simp only [decide_eq_true_eq] at hnew
    obtain ⟨calls, aux, hrun⟩ := processUnchanged_spec (hok.lock_pos (hchosen.old_mem old hold))
    refine ⟨_, hrun, { hok with }, ?_, hchosen.new_mem⟩
    rw [hnew.1, ← hold]
    exact hchosen.old
  | none =>
    dsimp only
    obtain ⟨hok2, hflag⟩ := moveSelected_spec hok hchosen
    have hrem : ∀ ri, ((moveSelected n1 oldSelect newSelect).mem ri).flags .removed = (n1.mem ri).flags .removed := by
      intro ri
      rw [moveSelected_flags, if_neg (by decide)]
    obtain ⟨mem, aux, hmove⟩ := moveSelected_frame n1 oldSelect newSelect
    rw [hmove] at hok2 hflag hrem ⊢
    have hnewPos : ∀ ri, newSelect = some ri → 0 < n1.lock ri := fun ri hri => hok.lock_pos (hchosen.new_mem ri hri)
    have holdPos : ∀ ri, oldSelect = some ri → 0 < n1.lock ri := fun ri hri => hok.lock_pos (hchosen.old_mem ri hri)
    obtain ⟨calls, hann⟩ := @announce_spec newSelect env.peers { n1 with mem, aux } hnewPos
    rw [hann, bind_some]
    obtain ⟨calls', hfib⟩ := @fibUpdate_spec env { n1 with mem, aux, calls } _ _ holdPos hnewPos
    rw [hfib]
    have hok3 : NodeOk { n1 with mem, aux, calls := calls' } := { hok2 with }
    exact reapOld_spec hok3 hflag hchosen.old_mem hchosen.new_mem fun ri hri => by
      have hhold := hchosen.new_usable ri hri
      simp only [BgpInfo.holddown, Bool.or_eq_false_iff] at hhold
      exact (hrem ri).trans hhold.2.2

/-! ## Runs -/

/-- Two flags of a path are set, neither of which is `BGP_INFO_SELECTED`. -/
theorem NodeOk.setFlags (h : NodeOk n) (ri : InfoPtr) {f g : InfoFlag} (hf : f ≠ .selected) (hg : g ≠ .selected)
    (b c : Bool) : NodeOk ((n.setFlag ri f b).setFlag ri g c) := by
  refine h.marked fun rj => ?_
  change (((n.setFlag ri f b).setFlag ri g c).mem rj).flags .selected = _
  rw [setFlag_flags, if_neg fun hs => hg hs.2.symm, setFlag_flags, if_neg fun hs => hf hs.2.symm]

/-- Whatever happens to a node, it stays in order. -/
theorem NodeOk.step {n n' : NodeState} (h : NodeOk n) (hstep : NodeStep n n') : NodeOk n' := by
  cases hstep with
  | add ri bi aux hfree hflag =>
    have hlock := h.lock ri
    have hri : ri ∉ n.info := fun hin => by rw [if_pos hin] at hlock; omega
    have hrefs : n.refs ri = 0 := by omega
    have hnew : ¬ (bgpInfoAdd n ri bi aux).Selected ri := by
      simp only [NodeState.Selected, bgpInfoAdd, update_self, hflag]
      exact Bool.false_ne_true
    have hother : ∀ rj, rj ≠ ri → ((bgpInfoAdd n ri bi aux).Selected rj ↔ n.Selected rj) := by
      intro rj hne
      simp [NodeState.Selected, bgpInfoAdd, update_of_ne hne]
    refine ⟨nodup_cons.2 ⟨hri, h.nodup⟩, fun rj => ?_, fun ri' rj hri' hrj hsi hsj => ?_, fun rj hpos hsel => ?_,
      ?_, h.freed⟩
    · by_cases heq : rj = ri
      · subst heq
        simp [bgpInfoAdd, hfree, hrefs]
      · simp only [bgpInfoAdd, update_of_ne heq, mem_cons, heq, false_or]
        exact h.lock rj
    · -- neither is the new path, which carries no flag
      have hni : ri' ≠ ri := by
        rintro rfl
        exact hnew hsi
      have hnj : rj ≠ ri := by
        rintro rfl
        exact hnew hsj
      exact h.one ri' rj ((mem_cons.1 hri').resolve_left hni) ((mem_cons.1 hrj).resolve_left hnj)
        ((hother ri' hni).1 hsi) ((hother rj hnj).1 hsj)
    · have hne : rj ≠ ri := by
        rintro rfl
        exact hnew hsel
      simp only [bgpInfoAdd, update_of_ne hne] at hpos
      exact mem_cons_of_mem _ (h.listed rj hpos ((hother rj hne).1 hsel))
    · intro rj hrj
      by_cases heq : rj = ri
      · subst heq
        simp [bgpInfoAdd, setDmedCheck, setDmedSelected]
      · simpa [bgpInfoAdd, setDmedCheck, setDmedSelected, heq] using h.clear rj ((mem_cons.1 hrj).resolve_left heq)
  | delete ri hri | restore ri hri => exact h.setFlags ri (by decide) (by decide) _ _
  | change ri bi aux hri hflag =>
    refine h.marked fun rj => ?_
    by_cases heq : rj = ri
    · subst heq
      simp [hflag]
    · simp [update_of_ne heq]
  | reference ri hri => exact h.relock hri (by omega) h.freed
  | release ri hri hn => exact h.release hri hn
  | process env hn =>
    obtain ⟨n'', hrun, hok, -⟩ := bgpProcessMain_spec env h
    rw [hrun] at hn
    exact Option.some.inj hn ▸ hok

theorem NodeRun.ok (hrun : NodeRun n) : NodeOk n := by
  induction hrun with
  | empty mem aux => exact NodeOk.empty mem aux
  | step _ hstep ih => exact ih.step hstep

/-- In every run one path at most is selected, it is one of the list, and no path was freed while it was selected.
`bgp_process_main` comes to its end, so it uses no path that is freed, and the selected path is then the one that
`bgp_best_selection` returns: none if no path is usable. -/
theorem nodeRun_oneSelected {n : NodeState} (hrun : NodeRun n) :
    (∀ ri rj, 0 < n.lock ri → 0 < n.lock rj → n.Selected ri → n.Selected rj → ri = rj) ∧
      (∀ ri, 0 < n.lock ri → n.Selected ri → ri ∈ n.info) ∧
      (∀ bi ∈ n.freed, bi.flags .selected = false) ∧
      ∀ env : ProcessEnv, ∃ n', bgpProcessMain env n = some n' ∧
        (∀ ri ∈ n'.info, n'.Selected ri ↔ (env.best n).newSelect = some ri) ∧
        (∀ ri, (env.best n).newSelect = some ri → ri ∈ n'.info) ∧
        ((env.best n).newSelect = none ↔ usable n.mem n.info = []) := by
  have h := hrun.ok
  refine ⟨fun ri rj hri hrj hsi hsj => ?_, h.listed, h.freed, fun env => ?_⟩
  · exact h.one ri rj (h.listed ri hri hsi) (h.listed rj hrj hsj) hsi hsj
  · obtain ⟨n', hmain, -, hflag, hnew⟩ := bgpProcessMain_spec env h
    have hnull := env.protocol.infoCmp_none env.bgp
    exact ⟨n', hmain, hflag, hnew, (@bgpBestSelection_newSelect _ _ env.maxpaths n.mem _ _ hnull h.nodup h.clear).2⟩

def plainPath : BgpInfo where
  peer := { as := 1, sort := .ebgp, remoteId := 1, suRemote := .sin 1 }
  attr := {}
  igpmetric := none
  flags f := f == .valid
  subType := .normal

/-- A node with the selected path 0, which is removed while path 1 comes. -/
def replacedNode : Option NodeState := do
  let n ← bgpProcessMain { peers := [7] } (bgpInfoAdd (.empty (fun _ => plainPath) fun _ => {}) 0 plainPath {})
  if n.lock 1 = 0 ∧ 0 ∈ n.info then bgpProcessMain { peers := [7] } (bgpInfoDelete (bgpInfoAdd n 1 plainPath {}) 0)
  else none

theorem replacedNode_run (hn : replacedNode = some n) : NodeRun n := by
  unfold replacedNode at hn
  obtain ⟨n1, hn1, hn⟩ := Option.bind_eq_some_iff.1 hn
  have hrun : NodeRun n1 := ((NodeRun.empty _ _).step (.add 0 plainPath {} rfl rfl)).step (.process _ hn1)
  split at hn
  · rename_i hfree
    have hadd := hrun.step (.add 1 plainPath {} hfree.1 rfl)
    have hdel := hadd.step (.delete 0 (mem_cons_of_mem 1 hfree.2))
    exact hdel.step (.process _ hn)
  · exact absurd hn (by simp)

theorem nodeRun_oneSelected_replaced :
    ∃ n, replacedNode = some n ∧ n.info = [1] ∧ n.Selected 1 ∧ n.lock 0 = 0 ∧ n.freed.length = 1 ∧
      n.calls = [.announceSelected 7 (some 0), .zebraAnnounce 0, .announceSelected 7 (some 1), .zebraAnnounce 1] ∧
      ∀ ri, 0 < n.lock ri → n.Selected ri → ri = 1 := by
  have hmap : replacedNode.map
      (fun n => (n.info, (n.mem 1).flags .selected, n.lock 0, n.lock 1, n.freed.length, n.calls)) =
      some ([1], true, 0, 1, 1,
        [.announceSelected 7 (some 0), .zebraAnnounce 0, .announceSelected 7 (some 1), .zebraAnnounce 1]) := rfl
  obtain ⟨n, hn, hval⟩ := Option.map_eq_some_iff.1 hmap
  simp only [Prod.mk.injEq] at hval
  obtain ⟨hinfo, hsel, hlock0, hlock1, hfreed, hcalls⟩ := hval
  refine ⟨n, hn, hinfo, hsel, hlock0, hfreed, hcalls, fun ri hri hs => ?_⟩
  exact (nodeRun_oneSelected (replacedNode_run hn)).1 ri 1 hri (by omega) hs hsel

end Tarpan.Bgpd
