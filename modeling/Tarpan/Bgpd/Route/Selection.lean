/-
The choice of the best path of a node (bgp_route.c, `bgp_best_selection`). With deterministic-med a
first pass leaves one path of each group of paths from one neighbouring AS; the second pass chooses
among those, or among all usable paths. The passes are runs of the comparison over the list, which
`bgpBestSelection_eq` says in the terms of `knockout` and `twoRounds`.
-/
import Tarpan.Base.Knockout
import Tarpan.Bgpd.Route.Compare

namespace Tarpan.Bgpd

open Base Lib List Function

/-! ## The list of multipaths -/

def bgpInfoNexthopCmp (bi1 bi2 : BgpInfo) : Ordering :=
  (compare bi1.attr.nexthop.toNat bi2.attr.nexthop.toNat).then
    (match bi1.attr.extra, bi2.attr.extra with
    | some ae1, some ae2 =>
      if ae1.mpNexthopLen = ae2.mpNexthopLen then
        if ae1.mpNexthopLen = 4 ∨ ae1.mpNexthopLen = 12 then
          compare ae1.mpNexthopGlobalIn.toNat ae2.mpNexthopGlobalIn.toNat
        else if ae1.mpNexthopLen = 16 then octetsCmp ae1.mpNexthopGlobal.octets ae2.mpNexthopGlobal.octets
        else if ae1.mpNexthopLen = 32 then
          (octetsCmp ae1.mpNexthopGlobal.octets ae2.mpNexthopGlobal.octets).then
            (octetsCmp ae1.mpNexthopLocal.octets ae2.mpNexthopLocal.octets)
        else .eq
      else .eq
    | _, _ => .eq)

def bgpInfoMpathCmp (bi1 bi2 : BgpInfo) : Ordering :=
  (bgpInfoNexthopCmp bi1 bi2).then (sockunionCmp bi1.peer.suRemote bi2.peer.suRemote)

def listnodeAddSort {α : Type} (cmp : α → α → Ordering) (val : α) : List α → List α
  | [] => [val]
  | n :: list => if cmp val n = .lt then val :: n :: list else n :: listnodeAddSort cmp val list

/-! ## The two passes -/

abbrev InfoPtr := Nat

/-- `struct bgp_maxpaths_cfg`. -/
structure BgpMaxpathsCfg where
  maxpathsEbgp : UInt16 := 1
  maxpathsIbgp : UInt16 := 1

/-- What the selection asks of the multipath code, which chooses no path itself. -/
inductive MpathCall where
  | mpathUpdate (newSelect oldSelect : Option InfoPtr) (mpList : List InfoPtr)
  | mpDmedDeselect (dmedBest : Option InfoPtr)
  | mpathAggregateUpdate (newSelect oldSelect : Option InfoPtr)

/-- What the selection changes: the two flags it keeps on each path, the list of multipaths and
the calls it has made. -/
structure SelectState where
  dmedCheck : InfoPtr → Bool
  dmedSelected : InfoPtr → Bool
  mpList : List InfoPtr
  calls : List MpathCall

namespace SelectState

section
variable (st : SelectState)

def setDmedCheck (ri : InfoPtr) (b : Bool) : SelectState := { st with dmedCheck := update st.dmedCheck ri b }

def setDmedSelected (ri : InfoPtr) (b : Bool) : SelectState := { st with dmedSelected := update st.dmedSelected ri b }

/-- `bgp_mp_list_add`. -/
def mpListAdd (mem : InfoPtr → BgpInfo) (st : SelectState) (ri : InfoPtr) : SelectState :=
  { st with mpList := listnodeAddSort (fun a b => bgpInfoMpathCmp (mem a) (mem b)) ri st.mpList }

/-- `bgp_mp_list_clear`. -/
def mpListClear : SelectState := { st with mpList := [] }
def call (c : MpathCall) : SelectState := { st with calls := st.calls ++ [c] }

/-- The state in which no path carries a flag and no call has been made. -/
def fresh : SelectState := ⟨fun _ => false, fun _ => false, [], []⟩

/-- No path of the list carries a flag of the first pass. -/
def Clear (rn : List InfoPtr) : Prop := ∀ ri ∈ rn, st.dmedCheck ri = false ∧ st.dmedSelected ri = false

theorem fresh_clear (rn : List InfoPtr) : fresh.Clear rn := fun _ _ => ⟨rfl, rfl⟩

@[simp] theorem mpListClear_dmedCheck : st.mpListClear.dmedCheck = st.dmedCheck := rfl
@[simp] theorem mpListClear_dmedSelected : st.mpListClear.dmedSelected = st.dmedSelected := rfl

end

end SelectState

section Passes
variable (bgp : Bgp) (handler : Option ProtocolInfoCmp) (cfg : BgpMaxpathsCfg) (mem : InfoPtr → BgpInfo)

/-- Whether more than one path may be used at a time. -/
def doMpath : Bool := cfg.maxpathsEbgp != 1 || cfg.maxpathsIbgp != 1

/-- The first pass takes `ri2` into the group of `ri1`. -/
def sameNeighborAs (ri1 ri2 : BgpInfo) : Bool :=
  aspathCmpLeft ri1.aspath ri2.aspath || aspathCmpLeftConfed ri1.aspath ri2.aspath

/-- The variables of the first pass while it goes over one group. -/
structure DmedGroup where
  st : SelectState
  newSelect : InfoPtr
  oldSelect : Option InfoPtr

/-- One turn of the inner loop of the first pass. -/
def dmedStep (ri1 : InfoPtr) (acc : DmedGroup) (ri2 : InfoPtr) : DmedGroup :=
  if acc.st.dmedCheck ri2 then acc
  else if (mem ri2).holddown then acc
  else if sameNeighborAs (mem ri1) (mem ri2) then
    let oldSelect := if (mem ri2).flags .selected then some ri2 else acc.oldSelect
    let (ret, pathsEq) := bgpInfoCmp bgp (some (mem ri2)) (some (mem acc.newSelect))
    let st := if ret then acc.st.setDmedSelected acc.newSelect false else acc.st
    let st := if ret && doMpath cfg && !pathsEq then st.mpListClear.mpListAdd mem ri2 else st
    let st := if doMpath cfg && pathsEq then st.mpListAdd mem ri2 else st
    ⟨st.setDmedCheck ri2 true, if ret then ri2 else acc.newSelect, oldSelect⟩
  else acc

def dmedPass : List InfoPtr → SelectState → SelectState
  | [], st => st
  | ri1 :: next, st =>
    if st.dmedCheck ri1 then dmedPass next st
    else if (mem ri1).holddown then dmedPass next st
    else
      let st := if doMpath cfg then st.mpListAdd mem ri1 else st
      let oldSelect := if (mem ri1).flags .selected then some ri1 else none
      let acc := next.foldl (dmedStep bgp cfg mem ri1) ⟨st, ri1, oldSelect⟩
      let st := (acc.st.setDmedCheck acc.newSelect true).setDmedSelected acc.newSelect true
      let st := (st.call (.mpathUpdate (some acc.newSelect) acc.oldSelect st.mpList)).mpListClear
      dmedPass next st

/-- The variables of the second pass; `kept` are the paths it has not reaped. -/
structure BestPass where
  st : SelectState
  oldSelect : Option InfoPtr := none
  newSelect : Option InfoPtr := none
  kept : List InfoPtr := []

def infoCmp (new exist : Option BgpInfo) : Bool × Bool :=
  match handler with
  | some cmp => cmp bgp new exist
  | none => bgpInfoCmp bgp new exist

/-- One turn of the second pass. -/
def bestStep (acc : BestPass) (ri : InfoPtr) : BestPass :=
  let oldSelect := if (mem ri).flags .selected then some ri else acc.oldSelect
  if (mem ri).holddown then
    if (mem ri).flags .removed && oldSelect != some ri then { acc with oldSelect }
    else { acc with oldSelect, kept := acc.kept ++ [ri] }
  else if bgp.flagCheck .deterministicMed && !acc.st.dmedSelected ri then
    { acc with oldSelect, st := acc.st.setDmedCheck ri false, kept := acc.kept ++ [ri] }
  else
    let dmedMpath := doMpath cfg && bgp.flagCheck .deterministicMed
    let st := (acc.st.setDmedCheck ri false).setDmedSelected ri false
    let (ret, pathsEq) := infoCmp bgp handler (some (mem ri)) (acc.newSelect.map mem)
    let st := if dmedMpath then st.call (.mpDmedDeselect (if ret then acc.newSelect else some ri)) else st
    let st := if ret && doMpath cfg && !pathsEq then st.mpListClear.mpListAdd mem ri else st
    let st := if doMpath cfg && pathsEq then st.mpListAdd mem ri else st
    ⟨st, oldSelect, if ret then some ri else acc.newSelect, acc.kept ++ [ri]⟩

/-- `bgp_best_selection` on the node whose list of paths is `rn`. -/
def bgpBestSelection (rn : List InfoPtr) (st : SelectState) : BestPass :=
  let st := st.mpListClear
  let st := if bgp.flagCheck .deterministicMed then dmedPass bgp cfg mem rn st else st
  let acc := rn.foldl (bestStep bgp handler cfg mem) ⟨st, none, none, []⟩
  let st := if bgp.flagCheck .deterministicMed then acc.st
    else acc.st.call (.mpathUpdate acc.newSelect acc.oldSelect acc.st.mpList)
  { acc with st := (st.call (.mpathAggregateUpdate acc.newSelect acc.oldSelect)).mpListClear }

end Passes

/-! ## The first pass as a choice in groups -/

section FirstPass
variable (bgp : Bgp) (cfg : BgpMaxpathsCfg) (mem : InfoPtr → BgpInfo)

/-- The relation by which the first pass forms its groups. -/
def dmedRel (ri1 ri2 : InfoPtr) : Bool := sameNeighborAs (mem ri1) (mem ri2)
def dmedBeats (ri1 ri2 : InfoPtr) : Bool := (bgpInfoCmp bgp (some (mem ri1)) (some (mem ri2))).1

/-- A path the first pass has not been over and that may be selected. -/
def dmedOpen (st : SelectState) (ri : InfoPtr) : Bool := !st.dmedCheck ri && !(mem ri).holddown

variable {mem}

variable {ri1 ri2 x : InfoPtr} {acc : DmedGroup}

theorem dmedStep_skip
    (h : (dmedOpen mem acc.st ri2 && dmedRel mem ri1 ri2) = false) : dmedStep bgp cfg mem ri1 acc ri2 = acc := by
  unfold dmedStep
  by_cases hchk : acc.st.dmedCheck ri2
  · rw [if_pos hchk]
  by_cases hhold : (mem ri2).holddown
  · rw [if_neg hchk, if_pos hhold]
  have hrel : ¬ sameNeighborAs (mem ri1) (mem ri2) := by simpa [dmedOpen, dmedRel, hchk, hhold] using h
  rw [if_neg hchk, if_neg hhold, if_neg hrel]

theorem dmedStep_join
    (h : (dmedOpen mem acc.st ri2 && dmedRel mem ri1 ri2) = true) :
    (dmedStep bgp cfg mem ri1 acc ri2).newSelect =
        (if dmedBeats bgp mem ri2 acc.newSelect then ri2 else acc.newSelect) ∧
      (dmedStep bgp cfg mem ri1 acc ri2).st.dmedCheck = update acc.st.dmedCheck ri2 true ∧
      (dmedStep bgp cfg mem ri1 acc ri2).st.dmedSelected =
        (if dmedBeats bgp mem ri2 acc.newSelect then update acc.st.dmedSelected acc.newSelect false
          else acc.st.dmedSelected) := by
  simp only [dmedOpen, dmedRel, Bool.and_eq_true, Bool.not_eq_true'] at h
  obtain ⟨⟨hchk, hhold⟩, hrel⟩ := h
  unfold dmedStep dmedBeats
  rw [hchk, hhold, hrel]
  rcases bgpInfoCmp bgp (some (mem ri2)) (some (mem acc.newSelect)) with ⟨ret, pathsEq⟩
  refine ⟨rfl, ?_, ?_⟩
  · cases ret <;> cases pathsEq <;> cases doMpath cfg <;> rfl
  · cases ret <;> cases pathsEq <;> cases doMpath cfg <;> rfl

/-- Where the holder does not carry the mark of a winner, a turn leaves those marks alone. -/
theorem dmedStep_dmedSelected (hnew : acc.st.dmedSelected acc.newSelect = false) :
    (dmedStep bgp cfg mem ri1 acc ri2).st.dmedSelected = acc.st.dmedSelected := by
  cases hjoin : dmedOpen mem acc.st ri2 && dmedRel mem ri1 ri2 with
  | false => rw [dmedStep_skip bgp cfg hjoin]
  | true =>
    rw [(dmedStep_join bgp cfg hjoin).2.2]
    split
    · rw [← hnew, update_eq_self]
    · rfl

variable {st st' : SelectState} {l : List InfoPtr}

theorem dmedOpen_update (hx : x ∉ l) (h : st'.dmedCheck = update st.dmedCheck x true) :
    ∀ ri ∈ l, dmedOpen mem st' ri = dmedOpen mem st ri := by
  intro ri hri
  have hne : ri ≠ x := by
    rintro rfl
    exact hx hri
  rw [dmedOpen, h, update_of_ne hne, dmedOpen]

/-- The pass has been over the paths that are marked as winners. -/
def DmedMarked (st : SelectState) (l : List InfoPtr) : Prop :=
  ∀ ri ∈ l, st.dmedSelected ri = true → st.dmedCheck ri = true

theorem DmedMarked.tail (h : DmedMarked st (ri1 :: l)) : DmedMarked st l := fun ri hri => h ri (mem_cons_of_mem _ hri)

/-- The inner loop: the holder is chosen by the comparison among the open paths related to the
leader, which are then marked. -/
theorem dmedLoop_spec {ri1 : InfoPtr} : ∀ {l : List InfoPtr} {acc : DmedGroup}, l.Nodup →
    DmedMarked acc.st l → acc.st.dmedSelected acc.newSelect = false →
    let joined := l.filter fun ri => dmedOpen mem acc.st ri && dmedRel mem ri1 ri
    (l.foldl (dmedStep bgp cfg mem ri1) acc).newSelect = knockoutFrom (dmedBeats bgp mem) acc.newSelect joined ∧
      (l.foldl (dmedStep bgp cfg mem ri1) acc).st.dmedCheck = (fun ri => acc.st.dmedCheck ri || decide (ri ∈ joined)) ∧
      (l.foldl (dmedStep bgp cfg mem ri1) acc).st.dmedSelected = acc.st.dmedSelected
  | [], acc, _, _, _ => by simp
  | x :: l, acc, hnd, hmark, hnew => by
    obtain ⟨hx, hl⟩ := nodup_cons.1 hnd
    rw [foldl_cons]
    cases hjoin : dmedOpen mem acc.st x && dmedRel mem ri1 x with
    | false =>
      rw [dmedStep_skip bgp cfg hjoin, filter_cons_of_neg (by simp [hjoin])]
      exact dmedLoop_spec hl hmark.tail hnew
    | true =>
      have hjoin' := dmedStep_join bgp cfg hjoin
      have hsel : (dmedStep bgp cfg mem ri1 acc x).st.dmedSelected = acc.st.dmedSelected :=
        dmedStep_dmedSelected bgp cfg hnew
      generalize dmedStep bgp cfg mem ri1 acc x = acc' at hjoin' hsel ⊢
      obtain ⟨hnew', hchk', -⟩ := hjoin'
      have hxsel : acc.st.dmedSelected x = false := by
        simp only [dmedOpen, Bool.and_eq_true] at hjoin
        by_contra h
        rw [hmark x mem_cons_self (by simpa using h)] at hjoin
        exact absurd hjoin.1.1 (by decide)
      have hfil : (l.filter fun ri => dmedOpen mem acc'.st ri && dmedRel mem ri1 ri) =
          l.filter fun ri => dmedOpen mem acc.st ri && dmedRel mem ri1 ri :=
        filter_congr fun ri hri => by rw [dmedOpen_update hx hchk' ri hri]
      have hmark' : DmedMarked acc'.st l := by
        intro ri hri h
        rw [hsel] at h
        rw [hchk', update_apply]
        split
        · rfl
        · exact hmark.tail ri hri h
      have hnew'' : acc'.st.dmedSelected acc'.newSelect = false := by
        rw [hsel, hnew']
        split
        · exact hxsel
        · exact hnew
      obtain ⟨h1, h2, h3⟩ := dmedLoop_spec hl hmark' hnew''
      rw [hfil] at h1 h2
      have hcons : ((x :: l).filter fun ri => dmedOpen mem acc.st ri && dmedRel mem ri1 ri) =
          x :: l.filter fun ri => dmedOpen mem acc.st ri && dmedRel mem ri1 ri := filter_cons_of_pos hjoin
      rw [hcons]
      refine ⟨by rw [h1, hnew', knockoutFrom_cons], ?_, h3.trans hsel⟩
      rw [h2, hchk']
      funext ri
      by_cases hri : ri = x <;> simp [hri]

/-- The paths of a list that the first pass is still to go over. -/
def dmedCandidates (mem : InfoPtr → BgpInfo) (st : SelectState) (l : List InfoPtr) : List InfoPtr :=
  l.filter (dmedOpen mem st)

variable {next : List InfoPtr}

theorem dmedPass_skip (hopen : dmedOpen mem st ri1 = false) :
    dmedPass bgp cfg mem (ri1 :: next) st = dmedPass bgp cfg mem next st := by
  simp only [dmedPass]
  cases hchk : st.dmedCheck ri1 with
  | true => rfl
  | false =>
    have hhold : (mem ri1).holddown = true := by simpa [dmedOpen, hchk] using hopen
    rw [hhold]
    rfl

/-- One turn of the first pass that forms a group: its paths are marked, and its winner is. -/
theorem dmedPass_group (hnd : (ri1 :: next).Nodup)
    (hmark : DmedMarked st (ri1 :: next)) (hopen : dmedOpen mem st ri1 = true) :
    ∃ st', dmedPass bgp cfg mem (ri1 :: next) st = dmedPass bgp cfg mem next st' ∧
      let joined := (dmedCandidates mem st next).filter (dmedRel mem ri1)
      let winner := knockoutFrom (dmedBeats bgp mem) ri1 joined
      st'.dmedCheck = update (fun ri => st.dmedCheck ri || decide (ri ∈ joined)) winner true ∧
      st'.dmedSelected = update st.dmedSelected winner true := by
  have hopen' : st.dmedCheck ri1 = false ∧ (mem ri1).holddown = false := by simpa [dmedOpen] using hopen
  have hsel : st.dmedSelected ri1 = false := by
    by_contra h
    rw [hmark ri1 mem_cons_self (by simpa using h)] at hopen'
    exact absurd hopen'.1 (by decide)
  simp only [dmedPass, hopen'.1, hopen'.2]
  generalize hst : (if doMpath cfg = true then st.mpListAdd mem ri1 else st) = st0
  generalize (if (mem ri1).flags .selected = true then some ri1 else none) = oldSelect
  have hst0 : st0.dmedCheck = st.dmedCheck ∧ st0.dmedSelected = st.dmedSelected := by
    rw [← hst]
    split <;> exact ⟨rfl, rfl⟩
  have hjoined : (next.filter fun ri => dmedOpen mem st0 ri && dmedRel mem ri1 ri) =
      (dmedCandidates mem st next).filter (dmedRel mem ri1) := by
    rw [dmedCandidates, filter_filter]
    apply filter_congr
    intro ri _
    rw [dmedOpen, hst0.1, ← dmedOpen, Bool.and_comm]
  obtain ⟨h1, h2, h3⟩ := @dmedLoop_spec bgp cfg mem ri1 next ⟨st0, ri1, oldSelect⟩ (nodup_cons.1 hnd).2
    (fun ri hri => by rw [hst0.1, hst0.2]; exact hmark.tail ri hri) (by rw [hst0.2]; exact hsel)
  rw [hjoined] at h1 h2
  refine ⟨_, rfl, ?_, ?_⟩
  · rw [← hst0.1, ← h1, ← h2]
    rfl
  · rw [← hst0.2, ← h1, ← h3]
    rfl

theorem dmedCandidates_group (hri1 : ri1 ∉ next)
    {winner : InfoPtr} (hwin : winner ∈ ri1 :: (dmedCandidates mem st next).filter (dmedRel mem ri1))
    (hchk : st'.dmedCheck = update
      (fun ri => st.dmedCheck ri || decide (ri ∈ (dmedCandidates mem st next).filter (dmedRel mem ri1))) winner true) :
    dmedCandidates mem st' next = ungrouped (dmedRel mem) ri1 (dmedCandidates mem st next) := by
  rw [ungrouped, dmedCandidates, dmedCandidates, filter_filter]
  apply filter_congr
  intro ri hri
  have hne : ri ≠ ri1 := by
    rintro rfl
    exact hri1 hri
  have hjoined : ri ∈ (dmedCandidates mem st next).filter (dmedRel mem ri1) ↔
      dmedRel mem ri1 ri = true ∧ dmedOpen mem st ri = true := by
    simp [dmedCandidates, hri]
  rw [dmedOpen, hchk, update_apply]
  split
  · -- the winner is in the group
    rename_i hw
    have hgroup := hjoined.1 ((mem_cons.1 (hw ▸ hwin)).resolve_left hne)
    simp [hgroup.1]
  · simp only [hjoined, dmedOpen]
    cases st.dmedCheck ri <;> cases (mem ri).holddown <;> cases dmedRel mem ri1 ri <;> rfl

/-- The first pass marks the winners of the groups and no other path, and it goes over no path in holddown. -/
theorem dmedPass_marks : ∀ {l : List InfoPtr} {st : SelectState}, l.Nodup → DmedMarked st l →
    ∀ ri, ((dmedPass bgp cfg mem l st).dmedSelected ri = true ↔
        st.dmedSelected ri = true ∨ ri ∈ groupHolders (dmedRel mem) (dmedBeats bgp mem) (dmedCandidates mem st l)) ∧
      ((dmedPass bgp cfg mem l st).dmedCheck ri = true → st.dmedCheck ri = true ∨ (mem ri).holddown = false)
  | [], st, _, _, ri => ⟨by simp [dmedPass, dmedCandidates, groupHolders, leaderGroups], .inl⟩
  | ri1 :: next, st, hnd, hmark, ri => by
    obtain ⟨hri1, hnext⟩ := nodup_cons.1 hnd
    cases hopen : dmedOpen mem st ri1 with
    | false =>
      rw [dmedPass_skip bgp cfg hopen, dmedCandidates, filter_cons_of_neg (by simp [hopen])]
      exact dmedPass_marks hnext hmark.tail ri
    | true =>
      obtain ⟨st', hpass, hchk, hsel⟩ := dmedPass_group bgp cfg hnd hmark hopen
      have hwin : knockoutFrom (dmedBeats bgp mem) ri1 ((dmedCandidates mem st next).filter (dmedRel mem ri1)) ∈ _ :=
        knockoutFrom_mem _ ri1
      have hleft := dmedCandidates_group hri1 hwin hchk
      have hcons : dmedCandidates mem st (ri1 :: next) = ri1 :: dmedCandidates mem st next := filter_cons_of_pos hopen
      have hmark' : DmedMarked st' next := by
        intro ri hri
        rw [hsel, hchk, update_apply, update_apply]
        split
        · exact id
        intro h
        rw [hmark.tail ri hri h]
        rfl
      obtain ⟨hselected, hchecked⟩ := dmedPass_marks hnext hmark' ri
      rw [hpass, hselected, hleft, hcons, hsel]
      constructor
      · simp only [groupHolders, leaderGroups, filterMap_cons, knockout, update_apply]
        split_ifs with hri <;> simp [hri]
      · intro h
        -- the winner and the paths that joined its group were open
        have hgroup : ∀ ri ∈ ri1 :: (dmedCandidates mem st next).filter (dmedRel mem ri1),
            (mem ri).holddown = false := by
          simp only [forall_mem_cons, dmedCandidates, mem_filter, dmedOpen, Bool.and_eq_true,
            Bool.not_eq_true'] at hopen ⊢
          exact ⟨hopen.2, fun ri h => h.1.2.2⟩
        rcases hchecked h with h | h
        · rw [hchk, update_apply] at h
          split_ifs at h with hri
          · exact .inr (hgroup ri (hri ▸ hwin))
          · rw [Bool.or_eq_true, decide_eq_true_eq] at h
            exact h.imp id fun h => hgroup ri (mem_cons_of_mem _ h)
        · exact .inr h

end FirstPass

/-! ## The second pass as a choice -/

section SecondPass
variable (bgp : Bgp) (handler : Option ProtocolInfoCmp) (cfg : BgpMaxpathsCfg) (mem : InfoPtr → BgpInfo)

def bestBeats (ri1 ri2 : InfoPtr) : Bool := (infoCmp bgp handler (some (mem ri1)) (some (mem ri2))).1

/-- The second pass compares the path. -/
def bestEnters (st : SelectState) (ri : InfoPtr) : Bool :=
  !(mem ri).holddown && (!bgp.flagCheck .deterministicMed || st.dmedSelected ri)

variable {bgp mem}

variable {acc : BestPass} {ri : InfoPtr}

theorem bestStep_st_of_holddown (h : (mem ri).holddown = true) : (bestStep bgp handler cfg mem acc ri).st = acc.st := by
  unfold bestStep
  generalize (if (mem ri).flags .selected = true then some ri else acc.oldSelect) = oldSelect
  rw [h]
  cases hreap : (mem ri).flags .removed && oldSelect != some ri <;> simp [hreap]

/-- The second pass takes the two flags off every path that is not in holddown. -/
theorem bestStep_flags (h : (mem ri).holddown = false) :
    (bestStep bgp handler cfg mem acc ri).st.dmedCheck = update acc.st.dmedCheck ri false ∧
      (bestStep bgp handler cfg mem acc ri).st.dmedSelected = update acc.st.dmedSelected ri false := by
  unfold bestStep
  rw [h]
  cases hdmed : bgp.flagCheck .deterministicMed && !acc.st.dmedSelected ri with
  | true =>
    have hsel : acc.st.dmedSelected ri = false := by simp_all
    refine ⟨rfl, ?_⟩
    show acc.st.dmedSelected = _
    rw [← hsel, update_eq_self]
  | false =>
    rcases infoCmp bgp handler (some (mem ri)) (acc.newSelect.map mem) with ⟨ret, pathsEq⟩
    constructor <;> cases ret <;> cases pathsEq <;> cases doMpath cfg <;>
      cases bgp.flagCheck .deterministicMed <;> rfl

theorem bestStep_skip (h : bestEnters bgp mem acc.st ri = false) :
    (bestStep bgp handler cfg mem acc ri).newSelect = acc.newSelect := by
  unfold bestStep
  cases hhold : (mem ri).holddown with
  | true =>
    generalize (if (mem ri).flags .selected = true then some ri else acc.oldSelect) = oldSelect
    cases hreap : (mem ri).flags .removed && oldSelect != some ri <;> simp [hreap]
  | false =>
    have hdmed : (bgp.flagCheck .deterministicMed && !acc.st.dmedSelected ri) = true := by
      simpa [bestEnters, hhold] using h
    rw [hdmed]
    rfl

theorem bestStep_enter (h : bestEnters bgp mem acc.st ri = true) :
    (bestStep bgp handler cfg mem acc ri).newSelect =
      if (infoCmp bgp handler (some (mem ri)) (acc.newSelect.map mem)).1 then some ri else acc.newSelect := by
  simp only [bestEnters, Bool.and_eq_true, Bool.not_eq_true'] at h
  have hdmed : (bgp.flagCheck .deterministicMed && !acc.st.dmedSelected ri) = false := by
    cases hflag : bgp.flagCheck .deterministicMed <;> simp_all
  unfold bestStep
  rw [h.1, hdmed]
  rfl

theorem bestStep_enters {x : InfoPtr} {l : List InfoPtr} (hx : x ∉ l) :
    l.filter (bestEnters bgp mem (bestStep bgp handler cfg mem acc x).st) = l.filter (bestEnters bgp mem acc.st) := by
  apply filter_congr
  intro ri hri
  have hne : ri ≠ x := by
    rintro rfl
    exact hx hri
  cases h : (mem x).holddown with
  | true => rw [bestStep_st_of_holddown handler cfg h]
  | false => rw [bestEnters, (bestStep_flags handler cfg h).2, update_of_ne hne, bestEnters]

/-- The second pass chooses by the comparison among the path it holds and those that enter it. -/
theorem bestLoop_eq (hnull : ∀ bi, (infoCmp bgp handler (some bi) none).1 = true) :
    ∀ {l : List InfoPtr} {acc : BestPass}, l.Nodup → (l.foldl (bestStep bgp handler cfg mem) acc).newSelect =
      knockout (bestBeats bgp handler mem) (acc.newSelect.toList ++ l.filter (bestEnters bgp mem acc.st))
  | [], acc, _ => by cases h : acc.newSelect <;> simp [knockout, h]
  | x :: l, acc, hnd => by
    obtain ⟨hx, hl⟩ := nodup_cons.1 hnd
    rw [foldl_cons, bestLoop_eq hnull hl, bestStep_enters handler cfg hx]
    cases h : bestEnters bgp mem acc.st x with
    | false => rw [bestStep_skip handler cfg h, filter_cons_of_neg (by simp [h])]
    | true =>
      rw [bestStep_enter handler cfg h, filter_cons_of_pos h]
      cases acc.newSelect with
      | none =>
        rw [Option.map_none, hnull]
        rfl
      | some w =>
        rw [← apply_ite some]
        rfl

theorem bestLoop_flags (ri : InfoPtr) : ∀ {l : List InfoPtr} {acc : BestPass},
    ri ∈ l ∧ (mem ri).holddown = false ∨ acc.st.dmedCheck ri = false ∧ acc.st.dmedSelected ri = false →
    (l.foldl (bestStep bgp handler cfg mem) acc).st.dmedCheck ri = false ∧
      (l.foldl (bestStep bgp handler cfg mem) acc).st.dmedSelected ri = false
  | [], acc, h => h.resolve_left fun h => not_mem_nil h.1
  | x :: l, acc, h => by
    rw [foldl_cons]
    apply bestLoop_flags ri
    cases hx : (mem x).holddown with
    | true =>
      rw [bestStep_st_of_holddown handler cfg hx]
      rcases h with ⟨hmem, hri⟩ | h
      · refine .inl ⟨(mem_cons.1 hmem).resolve_left ?_, hri⟩
        rintro rfl
        rw [hx] at hri
        cases hri
      · exact .inr h
    | false =>
      rw [(bestStep_flags handler cfg hx).1, (bestStep_flags handler cfg hx).2]
      by_cases hri : ri = x
      · simp [hri]
      simp only [update_of_ne hri]
      rcases h with ⟨hmem, hhold⟩ | h
      · exact .inl ⟨(mem_cons.1 hmem).resolve_left hri, hhold⟩
      · exact .inr h

/-- The path in use, and the paths that are not reaped, with each turn. -/
theorem bestStep_kept (acc : BestPass) (ri : InfoPtr) :
    (bestStep bgp handler cfg mem acc ri).oldSelect = (if (mem ri).flags .selected then some ri else acc.oldSelect) ∧
      (bestStep bgp handler cfg mem acc ri).kept =
        if (mem ri).flags .removed && (if (mem ri).flags .selected then some ri else acc.oldSelect) != some ri then
          acc.kept
        else acc.kept ++ [ri] := by
  unfold bestStep
  generalize (if (mem ri).flags .selected = true then some ri else acc.oldSelect) = oldSelect
  cases hhold : (mem ri).holddown with
  | true => cases hreap : (mem ri).flags .removed && oldSelect != some ri <;> simp [hreap]
  | false =>
    have hrem : (mem ri).flags .removed = false := by
      simp only [BgpInfo.holddown, Bool.or_eq_false_iff] at hhold
      exact hhold.2.2
    rw [hrem]
    cases bgp.flagCheck .deterministicMed && !acc.st.dmedSelected ri <;> exact ⟨rfl, rfl⟩

/-- The path is reaped by the second pass. -/
def reaped (bi : BgpInfo) : Bool := bi.flags .removed && !bi.flags .selected

/-- The second pass reaps the removed paths that are not in use. -/
theorem bestLoop_kept : ∀ {l : List InfoPtr} {acc : BestPass}, l.Nodup → (∀ ri ∈ l, acc.oldSelect ≠ some ri) →
    (l.foldl (bestStep bgp handler cfg mem) acc).kept = acc.kept ++ l.filter fun ri => !reaped (mem ri)
  | [], acc, _, _ => by simp
  | x :: l, acc, hnd, hold => by
    obtain ⟨hx, hl⟩ := nodup_cons.1 hnd
    obtain ⟨hstep, hkept⟩ := @bestStep_kept bgp handler cfg mem acc x
    have hold' : ∀ ri ∈ l, (bestStep bgp handler cfg mem acc x).oldSelect ≠ some ri := by
      intro ri hri
      rw [hstep]
      split
      · rintro ⟨⟩
        exact hx hri
      · exact hold ri (mem_cons_of_mem _ hri)
    have hin : ((if (mem x).flags .selected then some x else acc.oldSelect) != some x) = !(mem x).flags .selected := by
      cases (mem x).flags .selected with
      | true => simp
      | false => simpa using hold x mem_cons_self
    rw [foldl_cons, bestLoop_kept hl hold', hkept, hin, ← reaped]
    cases hreap : reaped (mem x) with
    | true => rw [if_pos rfl, filter_cons_of_neg (by simp [hreap])]
    | false =>
      rw [if_neg Bool.false_ne_true, filter_cons_of_pos (by simp [hreap]), append_assoc]
      rfl

/-- The path in use that the second pass finds. -/
theorem bestLoop_oldSelect : ∀ {l : List InfoPtr} {acc : BestPass},
    (∀ ri, (l.foldl (bestStep bgp handler cfg mem) acc).oldSelect = some ri →
      ri ∈ l ∧ (mem ri).flags .selected = true ∨ acc.oldSelect = some ri) ∧
    ((l.foldl (bestStep bgp handler cfg mem) acc).oldSelect = none →
      acc.oldSelect = none ∧ ∀ ri ∈ l, (mem ri).flags .selected = false)
  | [], acc => ⟨fun ri h => .inr h, fun h => ⟨h, fun ri hri => absurd hri not_mem_nil⟩⟩
  | x :: l, acc => by
    obtain ⟨hsome, hnone⟩ := @bestLoop_oldSelect l (bestStep bgp handler cfg mem acc x)
    rw [(@bestStep_kept bgp handler cfg mem acc x).1] at hsome hnone
    cases hsel : (mem x).flags .selected with
    | true =>
      rw [hsel] at hsome hnone
      refine ⟨fun ri h => ?_, fun h => absurd (hnone h).1 (Option.some_ne_none x)⟩
      rcases hsome ri h with ⟨hri, hflag⟩ | hx
      · exact .inl ⟨mem_cons_of_mem _ hri, hflag⟩
      · cases hx
        exact .inl ⟨mem_cons_self, hsel⟩
    | false =>
      rw [hsel] at hsome hnone
      refine ⟨fun ri h => ?_, fun h => ⟨(hnone h).1, ?_⟩⟩
      · exact (hsome ri h).imp (fun hri => ⟨mem_cons_of_mem _ hri.1, hri.2⟩) id
      · rintro ri (_ | ⟨_, hri⟩)
        · exact hsel
        · exact (hnone h).2 ri hri

end SecondPass

/-! ## The selection as a choice -/

/-- The selection does not depend on the order of the list. -/
def SelectsSame (bgp : Bgp) (handler : Option ProtocolInfoCmp) (cfg : BgpMaxpathsCfg) (mem : InfoPtr → BgpInfo)
    (rn : List InfoPtr) : Prop :=
  ∀ rn', rn'.Perm rn → ∀ st st', st.Clear rn → st'.Clear rn →
    (bgpBestSelection bgp handler cfg mem rn' st').newSelect = (bgpBestSelection bgp handler cfg mem rn st).newSelect

section Selection
variable {bgp : Bgp} {handler : Option ProtocolInfoCmp} (cfg : BgpMaxpathsCfg) {mem : InfoPtr → BgpInfo}

/-- The paths of a node that may be selected. -/
def usable (mem : InfoPtr → BgpInfo) (rn : List InfoPtr) : List InfoPtr := rn.filter fun ri => !(mem ri).holddown

variable {rn : List InfoPtr}

theorem mem_usable {ri : InfoPtr} : ri ∈ usable mem rn ↔ ri ∈ rn ∧ (mem ri).holddown = false := by
  simp [usable]

theorem usable_eq_self (h : ∀ ri ∈ rn, (mem ri).holddown = false) : usable mem rn = rn :=
  filter_eq_self.2 fun ri hri => by rw [h ri hri]; rfl

variable {st : SelectState}

theorem dmedPass_clear (hnd : rn.Nodup) (hclr : st.Clear rn) : ∀ ri ∈ rn,
    ((dmedPass bgp cfg mem rn st.mpListClear).dmedSelected ri = true ↔
        ri ∈ groupHolders (dmedRel mem) (dmedBeats bgp mem) (usable mem rn)) ∧
      ((dmedPass bgp cfg mem rn st.mpListClear).dmedCheck ri = true → (mem ri).holddown = false) := by
  have hcand : dmedCandidates mem st.mpListClear rn = usable mem rn :=
    filter_congr fun ri hri => by simp [dmedOpen, (hclr ri hri).1]
  have hmark : DmedMarked st.mpListClear rn := by
    intro ri hri h
    simp [(hclr ri hri).2] at h
  intro ri hri
  have h := @dmedPass_marks bgp cfg mem rn _ hnd hmark ri
  rw [hcand] at h
  simpa [(hclr ri hri).1, (hclr ri hri).2] using h

section
variable (hnull : ∀ bi, (infoCmp bgp handler (some bi) none).1 = true) (hnd : rn.Nodup)
include hnull hnd

/-- Without deterministic-med the comparison runs over all usable paths. -/
theorem bgpBestSelection_eq_knockout (st : SelectState) (hdmed : bgp.flagCheck .deterministicMed = false) :
    (bgpBestSelection bgp handler cfg mem rn st).newSelect = knockout (bestBeats bgp handler mem) (usable mem rn) := by
  simp only [bgpBestSelection]
  rw [bestLoop_eq handler cfg hnull hnd]
  refine congrArg _ (filter_congr fun ri _ => ?_)
  simp [bestEnters, hdmed]

/-- With deterministic-med the comparison of the standard process runs over each group, then the
one of the second pass over the winners. -/
theorem bgpBestSelection_eq_twoRounds (hclr : st.Clear rn) (hdmed : bgp.flagCheck .deterministicMed = true) :
    (bgpBestSelection bgp handler cfg mem rn st).newSelect =
      twoRounds (dmedRel mem) (dmedBeats bgp mem) (bestBeats bgp handler mem) (usable mem rn) := by
  simp only [bgpBestSelection]
  rw [bestLoop_eq handler cfg hnull hnd, twoRounds, usable, filter_filter]
  refine congrArg _ (filter_congr fun ri hri => ?_)
  rw [Bool.eq_iff_iff]
  simp [bestEnters, hdmed, (dmedPass_clear cfg hnd hclr ri hri).1, usable, and_comm]

/-- What is chosen is usable, and something is chosen where a path is usable. -/
theorem bgpBestSelection_newSelect (hclr : st.Clear rn) :
    (∀ ri, (bgpBestSelection bgp handler cfg mem rn st).newSelect = some ri → ri ∈ usable mem rn) ∧
      ((bgpBestSelection bgp handler cfg mem rn st).newSelect = none ↔ usable mem rn = []) := by
  cases hdmed : bgp.flagCheck .deterministicMed with
  | true =>
    rw [bgpBestSelection_eq_twoRounds cfg hnull hnd hclr hdmed]
    exact ⟨fun ri => twoRounds_mem, twoRounds_eq_none_iff⟩
  | false =>
    rw [bgpBestSelection_eq_knockout cfg hnull hnd st hdmed]
    exact ⟨fun ri => knockout_mem, knockout_eq_none_iff _⟩

end

theorem bgpBestSelection_kept (hnd : rn.Nodup) (st : SelectState) :
    (bgpBestSelection bgp handler cfg mem rn st).kept = rn.filter fun ri => !reaped (mem ri) := by
  unfold bgpBestSelection
  rw [bestLoop_kept handler cfg hnd fun _ _ => Option.some_ne_none _ ∘ Eq.symm, nil_append]

theorem bgpBestSelection_oldSelect (rn : List InfoPtr) (st : SelectState) :
    (∀ ri, (bgpBestSelection bgp handler cfg mem rn st).oldSelect = some ri →
      ri ∈ rn ∧ (mem ri).flags .selected = true) ∧
    ((bgpBestSelection bgp handler cfg mem rn st).oldSelect = none → ∀ ri ∈ rn, (mem ri).flags .selected = false) := by
  unfold bgpBestSelection
  obtain ⟨hsome, hnone⟩ := @bestLoop_oldSelect bgp handler cfg mem rn
    ⟨if bgp.flagCheck .deterministicMed then dmedPass bgp cfg mem rn st.mpListClear else st.mpListClear, none, none, []⟩
  exact ⟨fun ri h => (hsome ri h).resolve_right (Option.some_ne_none ri ∘ Eq.symm), fun h => (hnone h).2⟩

/-- A selection leaves no flag of its first pass behind, so the next one finds none. -/
theorem bgpBestSelection_clear (hnd : rn.Nodup) (hclr : st.Clear rn) :
    (bgpBestSelection bgp handler cfg mem rn st).st.Clear rn := by
  intro ri hri
  have hloop : ∀ st0 : SelectState,
      ((mem ri).holddown = true → st0.dmedCheck ri = false ∧ st0.dmedSelected ri = false) →
      (rn.foldl (bestStep bgp handler cfg mem) ⟨st0, none, none, []⟩).st.dmedCheck ri = false ∧
        (rn.foldl (bestStep bgp handler cfg mem) ⟨st0, none, none, []⟩).st.dmedSelected ri = false := by
    intro st0 hst0
    apply bestLoop_flags handler cfg ri
    cases h : (mem ri).holddown with
    | false => exact .inl ⟨hri, rfl⟩
    | true => exact .inr (hst0 h)
  cases hdmed : bgp.flagCheck .deterministicMed with
  | true =>
    simp only [bgpBestSelection, hdmed, if_true]
    refine hloop _ fun hhold => ?_
    obtain ⟨hsel, hchk⟩ := @dmedPass_clear bgp cfg mem rn st hnd hclr ri hri
    rw [← Bool.not_eq_true, ← Bool.not_eq_true, hsel]
    constructor
    · intro h
      rw [hchk h] at hhold
      cases hhold
    · intro h
      rw [(mem_usable.1 (mem_of_mem_groupHolders h)).2] at hhold
      cases hhold
  | false =>
    simp only [bgpBestSelection, hdmed]
    exact hloop _ fun _ => hclr ri hri

end Selection

end Tarpan.Bgpd
