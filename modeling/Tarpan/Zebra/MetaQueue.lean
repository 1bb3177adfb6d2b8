/-
The meta queue of zebra (zebra/zebra_rib.c): five lists of route nodes that wait for `rib_process`, and the work queue
(lib/workqueue.c) that holds the meta queue while there is something to do.
-/
import Tarpan.Base.Runs
import Mathlib.Algebra.Order.BigOperators.Group.Finset

namespace Tarpan.Zebra

open Base List Function Option

/-- `ZEBRA_ROUTE_*`. The type of an entry is an octet that comes from a client and is not checked; a larger one would
have `meta_queue_map` read behind its end, and the model has none. -/
inductive RouteType where
  | system | kernel | connect | static | rip | ripng | ospf | ospf6 | isis | bgp | pim | hsls | olsr | babel
  deriving DecidableEq

/-- `MQ_SIZE` sub-queues. -/
abbrev QueueIndex := Fin 5

/-- `meta_queue_map`; types that it does not list are in sub-queue 0. -/
def metaQueueMap : RouteType → QueueIndex
  | .system | .hsls => 4
  | .kernel | .connect | .pim | .olsr => 0
  | .static => 1
  | .rip | .ripng | .ospf | .ospf6 | .isis | .babel => 2
  | .bgp => 3

/-- A `struct rib`, as far as the queue goes: its type, and whether it has `RIB_ENTRY_REMOVED`. -/
structure QueuedRib where
  type : RouteType
  removed : Bool := false

/-- `rib_dest_t`; `queued` are its flags `RIB_ROUTE_QUEUED`. -/
structure RibDest where
  routes : List QueuedRib := []
  queued : QueueIndex → Bool := fun _ => false
  sentToFpm : Bool := false
  updateFpm : Bool := false

/-- The destinations of the route nodes, the meta queue `mq`, and the items of the work queue `ribq`. -/
structure RibQueue where
  dest : Nat → Option RibDest := fun _ => none
  subq : QueueIndex → List Nat := fun _ => []
  size : UInt32 := 0
  items : Nat := 0

open RibQueue

section
variable (s : RibQueue) (rn : Nat)

/-- One pass of the loop of `rib_meta_queue_add`. -/
def metaQueuePush (qindex : QueueIndex) : RibQueue :=
  match s.dest rn with
  | some dest =>
    if dest.queued qindex then s
    else
      { s with
        dest := update s.dest rn (some { dest with queued := update dest.queued qindex true })
        subq := update s.subq qindex (s.subq qindex ++ [rn])
        size := s.size + 1 }
  | none => s

def rnodeToRibs : List QueuedRib := (s.dest rn).elim [] RibDest.routes
def ribMetaQueueAdd : RibQueue := (rnodeToRibs s rn).foldl (fun s rib => metaQueuePush s rn (metaQueueMap rib.type)) s

/-- `work_queue_add`, if the work queue has no item. -/
def ribqHold : RibQueue := if s.items = 0 then { s with items := 1 } else s

def ribQueueAdd : RibQueue := if (rnodeToRibs s rn).isEmpty then s else ribMetaQueueAdd (ribqHold s) rn

/-- `rib_link`, which `rib_addnode` calls for a new entry. -/
def ribLink (rib : QueuedRib) : RibQueue :=
  let dest := (s.dest rn).getD {}
  ribQueueAdd { s with dest := update s.dest rn (some { dest with routes := rib :: dest.routes }) } rn

/-- `rib_delnode`, for the entry at a place of the list. -/
def ribDelnode (rn place : Nat) : RibQueue :=
  match s.dest rn with
  | some dest =>
    ribQueueAdd { s with
      dest := update s.dest rn
        (some { dest with routes := dest.routes.modify place fun rib => { rib with removed := true } }) } rn
  | none => s

def ribCanDeleteDest (dest : RibDest) : Bool := dest.routes.isEmpty ∧ ¬ dest.updateFpm ∧ ¬ dest.sentToFpm

def ribGcDest : RibQueue := if (s.dest rn).any ribCanDeleteDest then { s with dest := update s.dest rn none } else s

end

section
variable (trigger : Bool) (s : RibQueue)

/-- What `rib_process` does to a destination: the removed entries are unlinked, and the FPM is told if `trigger`. Which
of the others is selected plays no part. -/
def RibDest.processed (dest : RibDest) : RibDest :=
  { dest with routes := dest.routes.filter (!·.removed), updateFpm := dest.updateFpm || trigger }

def ribProcess (rn : Nat) : RibQueue :=
  ribGcDest { s with dest := update s.dest rn ((s.dest rn).map (·.processed trigger)) } rn

/-- The flag of a destination is taken away. -/
def unsetQueued (rn : Nat) (qindex : QueueIndex) : RibQueue :=
  { s with
    dest := update s.dest rn ((s.dest rn).map fun dest => { dest with queued := update dest.queued qindex false }) }

/-- `process_subq`: nothing where the sub-queue is empty, and otherwise the node for which `rib_process` is called. -/
def processSubq (qindex : QueueIndex) : Option (Nat × RibQueue) :=
  match s.subq qindex with
  | [] => none
  | rnode :: rest =>
    let s := unsetQueued (ribProcess trigger s rnode) rnode qindex
    some (rnode, { s with subq := update s.subq qindex rest })

/-- The loop of `meta_queue_process`, with the node that is processed. -/
def metaQueueProcess : Option Nat × RibQueue :=
  match (finRange 5).findSome? (processSubq trigger s) with
  | some (rnode, s) => (some rnode, { s with size := s.size - 1 })
  | none => (none, s)

/-- `work_queue_run`, for the one item: it stays where the meta queue is not empty. -/
def workQueueRun : Option Nat × RibQueue :=
  if s.items = 0 then (none, s)
  else
    let (rnode, s) := metaQueueProcess trigger s
    (rnode, if s.size = 0 then { s with items := s.items - 1 } else s)

end

/-- What happens: routes are added and deleted, a node is queued for another reason, the flags of the FPM change, a
destination is collected, the work queue runs. -/
inductive QueueOp where
  | add (rn : Nat) (type : RouteType)
  | delete (rn place : Nat)
  | queue (rn : Nat)
  | fpm (rn : Nat) (sent update : Bool)
  | gc (rn : Nat)
  | run (trigger : Bool)

open QueueOp

def QueueOp.step (s : RibQueue) : QueueOp → RibQueue
  | .add rn type => ribLink s rn { type }
  | .delete rn place => ribDelnode s rn place
  | .queue rn => ribQueueAdd s rn
  | .fpm rn sent updateFpm =>
    { s with dest := update s.dest rn ((s.dest rn).map fun dest => { dest with sentToFpm := sent, updateFpm }) }
  | .gc rn => ribGcDest s rn
  | .run trigger => (workQueueRun trigger s).2

/-! ## The size and the item -/

section Counted
variable {s s' : RibQueue} {rn : Nat} {i : QueueIndex} {trigger : Bool}

def RibQueue.total (s : RibQueue) : Nat := ∑ i, (s.subq i).length

/-- The size is the sum of the lengths, and the work queue has an item while it is positive. -/
structure RibQueue.Counted (s : RibQueue) : Prop where
  size : s.size = .ofNat s.total
  item : s.size ≠ 0 → s.items ≠ 0

theorem total_update {l : List Nat} (h : s'.subq = update s.subq i l) :
    s'.total + (s.subq i).length = s.total + l.length := by
  unfold total
  rw [h]
  have hold := Finset.add_sum_erase Finset.univ (fun j => (s.subq j).length) (Finset.mem_univ i)
  have hnew := Finset.add_sum_erase Finset.univ (fun j => (update s.subq i l j).length) (Finset.mem_univ i)
  have hsame : ∑ j ∈ Finset.univ.erase i, (update s.subq i l j).length = ∑ j ∈ Finset.univ.erase i, (s.subq j).length :=
    Finset.sum_congr rfl fun j hj => by rw [update_of_ne (Finset.ne_of_mem_erase hj)]
  rw [update_self] at hnew
  omega

theorem counted_start : ({} : RibQueue).Counted := ⟨rfl, fun h => absurd rfl h⟩

theorem size_pushed (h : s.size = .ofNat s.total) (hsubq : s'.subq = update s.subq i (s.subq i ++ [rn]))
    (hsize : s'.size = s.size + 1) : s'.size = .ofNat s'.total := by
  have htot := total_update hsubq
  rw [length_append, length_singleton] at htot
  rw [hsize, h, show s'.total = s.total + 1 by omega, UInt32.ofNat_add]
  rfl

theorem counted_push (h : s.Counted ∧ s.items ≠ 0) (rn : Nat) (i : QueueIndex) :
    (metaQueuePush s rn i).Counted ∧ (metaQueuePush s rn i).items ≠ 0 := by
  unfold metaQueuePush
  split
  · split
    · exact h
    · exact ⟨⟨size_pushed h.1.size rfl rfl, fun _ => h.2⟩, h.2⟩
  · exact h

theorem counted_ribMetaQueueAdd (h : s.Counted ∧ s.items ≠ 0) (rn : Nat) :
    (ribMetaQueueAdd s rn).Counted ∧ (ribMetaQueueAdd s rn).items ≠ 0 := by
  unfold ribMetaQueueAdd
  generalize rnodeToRibs s rn = ribs
  induction ribs generalizing s with
  | nil => exact h
  | cons rib ribs ih => exact ih (counted_push h rn _)

theorem RibQueue.Counted.hold (h : s.Counted) : (ribqHold s).Counted ∧ (ribqHold s).items ≠ 0 := by
  unfold ribqHold
  split_ifs with hitems
  · exact ⟨⟨h.size, fun _ => Nat.one_ne_zero⟩, Nat.one_ne_zero⟩
  · exact ⟨h, hitems⟩

theorem RibQueue.Counted.queueAdd (h : s.Counted) (rn : Nat) : (ribQueueAdd s rn).Counted := by
  unfold ribQueueAdd
  split
  · exact h
  · exact (counted_ribMetaQueueAdd h.hold rn).1

theorem ribGcDest_frame (s : RibQueue) (rn : Nat) :
    (ribGcDest s rn).subq = s.subq ∧ (ribGcDest s rn).size = s.size ∧ (ribGcDest s rn).items = s.items := by
  unfold ribGcDest
  split <;> exact ⟨rfl, rfl, rfl⟩

variable (trigger : Bool)

theorem ribProcess_frame (s : RibQueue) (rn : Nat) : (ribProcess trigger s rn).subq = s.subq ∧
    (ribProcess trigger s rn).size = s.size ∧ (ribProcess trigger s rn).items = s.items :=
  ribGcDest_frame ..

/-- The sub-queue that is served next, and its first node. -/
def RibQueue.next (s : RibQueue) : Option (QueueIndex × Nat) :=
  (finRange 5).findSome? fun i => (s.subq i).head?.map (i, ·)

/-- A node taken from its sub-queue. -/
def takeFrom (trigger : Bool) (s : RibQueue) (i : QueueIndex) (rn : Nat) : RibQueue :=
  { unsetQueued (ribProcess trigger s rn) rn i with
    subq := update s.subq i (s.subq i).tail
    size := s.size - 1 }

/-- `meta_queue_process` serves the first sub-queue that is not empty. -/
theorem metaQueueProcess_eq (s : RibQueue) : metaQueueProcess trigger s =
    s.next.elim (none, s) fun r => (some r.2, takeFrom trigger s r.1 r.2) := by
  have hsubq : ∀ i, (processSubq trigger s i).map (fun r => (some r.1, { r.2 with size := r.2.size - 1 })) =
      (s.subq i).head?.map fun rn => (some rn, takeFrom trigger s i rn) := by
    intro i
    unfold processSubq takeFrom unsetQueued
    have hframe := ribProcess_frame trigger s
    split
    · rename_i hemp
      rw [hemp]
      rfl
    · rename_i rn rest hcons
      rw [hcons]
      dsimp only [head?_cons, map_some, tail_cons]
      rw [(hframe rn).1, (hframe rn).2.1]
  unfold metaQueueProcess RibQueue.next
  generalize finRange 5 = is
  induction is with
  | nil => rfl
  | cons i is ih =>
    have hi := hsubq i
    rw [findSome?_cons, findSome?_cons]
    rcases hhead : (s.subq i).head? with _ | rn
    · rw [hhead, map_none, map_eq_none_iff] at hi
      rw [hi]
      exact ih
    · rw [hhead, map_some, map_eq_some_iff] at hi
      obtain ⟨t, ht, htake⟩ := hi
      rw [ht]
      exact htake

theorem next_spec {rn : Nat} (h : s.next = some (i, rn)) : s.subq i = rn :: (s.subq i).tail := by
  obtain ⟨j, -, hj⟩ := exists_of_findSome?_eq_some h
  obtain ⟨x, hx, hxi⟩ := map_eq_some_iff.1 hj
  cases hxi
  exact (cons_head?_tail hx).symm

theorem next_none (h : s.next = none) (i : QueueIndex) : s.subq i = [] := by
  have hi := findSome?_eq_none_iff.1 h i (mem_finRange i)
  rwa [map_eq_none_iff, head?_eq_none_iff] at hi

theorem total_takeFrom (h : s.next = some (i, rn)) : (takeFrom trigger s i rn).total + 1 = s.total := by
  have htot : (takeFrom trigger s i rn).total + _ = _ := total_update rfl
  have hlength := congrArg length (next_spec h)
  rw [length_cons] at hlength
  omega

theorem RibQueue.Counted.run (h : s.Counted) (trigger : Bool) : (workQueueRun trigger s).2.Counted := by
  unfold workQueueRun
  split
  · exact h
  rename_i hitems
  have hsize : (metaQueueProcess trigger s).2.size = .ofNat (metaQueueProcess trigger s).2.total := by
    rw [metaQueueProcess_eq]
    rcases hnext : s.next with _ | ⟨i, rn⟩
    · exact h.size
    show s.size - 1 = _
    rw [h.size, ← total_takeFrom trigger hnext, UInt32.ofNat_add]
    exact UInt32.add_sub_cancel ..
  have hheld : (metaQueueProcess trigger s).2.items = s.items := by
    rw [metaQueueProcess_eq]
    rcases s.next with _ | ⟨i, rn⟩
    · rfl
    · exact (ribProcess_frame trigger s rn).2.2
  dsimp only
  split_ifs with hzero
  · exact ⟨hsize, fun hne => absurd hzero hne⟩
  · exact ⟨hsize, fun _ => hheld ▸ hitems⟩

/-- Whatever happens, the size is the sum of the lengths, and the item is there. -/
theorem counted_step (s : RibQueue) (op : QueueOp) (h : s.Counted) : (step s op).Counted := by
  cases op with
  | add rn type =>
    refine RibQueue.Counted.queueAdd ?_ rn
    exact { h with }
  | delete rn place =>
    unfold step ribDelnode
    dsimp only
    split
    · refine RibQueue.Counted.queueAdd ?_ rn
      exact { h with }
    · exact h
  | queue rn => exact h.queueAdd rn
  | fpm rn sent updateFpm => exact { h with }
  | gc rn =>
    unfold step ribGcDest
    dsimp only
    split
    · exact { h with }
    · exact h
  | run trigger => exact h.run trigger

end Counted

/-! ## The flags -/

section Marked
variable {s s' : RibQueue} {rn : Nat} {i : QueueIndex} {trigger : Bool}

/-- `RIB_ROUTE_QUEUED` of the destination of a node. -/
def RibQueue.flag (s : RibQueue) (rn : Nat) (i : QueueIndex) : Bool := (s.dest rn).any (·.queued i)

/-- A node is in a sub-queue at most once, and exactly if its flag says so. -/
structure RibQueue.Marked (s : RibQueue) : Prop where
  nodup : ∀ i, (s.subq i).Nodup
  flagged : ∀ i rn, rn ∈ s.subq i ↔ s.flag rn i = true

theorem marked_start : ({} : RibQueue).Marked := ⟨fun _ => nodup_nil, fun _ _ => by simp [flag]⟩

theorem flag_update {d : Option RibDest} (hdest : s'.dest = update s.dest rn d) (rn' : Nat) (i : QueueIndex) :
    s'.flag rn' i = if rn' = rn then d.any (·.queued i) else s.flag rn' i := by
  unfold flag
  rw [hdest]
  by_cases h : rn' = rn
  · subst h
    rw [update_self, if_pos rfl]
  · rw [update_of_ne h, if_neg h]

/-- A destination that changes keeps the flags of the queue. -/
theorem RibQueue.Marked.dest (h : s.Marked) {d : Option RibDest} (hd : ∀ i, d.any (·.queued i) = s.flag rn i) :
    { s with dest := update s.dest rn d }.Marked := by
  refine { h with flagged := fun i rn' => ?_ }
  rw [flag_update rfl, h.flagged]
  split_ifs with heq
  · rw [heq, hd]
  · rfl

theorem marked_push (h : s.Marked) (rn : Nat) (i : QueueIndex) : (metaQueuePush s rn i).Marked := by
  unfold metaQueuePush
  split
  · rename_i dest hdest
    split_ifs with hqueued
    · exact h
    have hflag : s.flag rn i = dest.queued i := by
      unfold flag
      rw [hdest]
      rfl
    have hnot : rn ∉ s.subq i := fun hmem => hqueued (hflag ▸ (h.flagged i rn).1 hmem)
    constructor
    · refine (forall_update_iff _ fun _ => Nodup).2 ⟨?_, fun j _ => h.nodup j⟩
      exact (h.nodup i).append (nodup_singleton rn) (disjoint_singleton.2 hnot)
    · intro j rn'
      rw [flag_update rfl]
      dsimp only
      have hold := h.flagged j rn'
      by_cases hj : j = i
      · subst hj
        rw [update_self, mem_append, mem_singleton, hold]
        by_cases hrn : rn' = rn <;> simp [hrn]
      · rw [update_of_ne hj, hold]
        by_cases hrn : rn' = rn
        · simp [hrn, flag, hdest, update_of_ne hj]
        · simp [hrn]
  · exact h

theorem RibQueue.Marked.queueAdd (h : s.Marked) (rn : Nat) : (ribQueueAdd s rn).Marked := by
  unfold ribQueueAdd
  split
  · exact h
  have hhold : (ribqHold s).Marked := by
    unfold ribqHold
    split
    · exact { h with }
    · exact h
  unfold ribMetaQueueAdd
  generalize rnodeToRibs (ribqHold s) rn = ribs
  generalize ribqHold s = t at hhold
  induction ribs generalizing t with
  | nil => exact hhold
  | cons rib ribs ih => exact ih _ (marked_push hhold rn _)

/-- A destination that `rib_gc_dest` takes away. -/
theorem marked_gc_iff (h : s.Marked) (rn : Nat) : (ribGcDest s rn).Marked ↔
    ((s.dest rn).any ribCanDeleteDest = true → ∀ i, rn ∉ s.subq i) := by
  unfold ribGcDest
  split_ifs with hdel
  · rw [forall_prop_of_true hdel]
    constructor
    · intro h' i hmem
      have hflag := (h'.flagged i rn).1 hmem
      rw [flag_update rfl, if_pos rfl] at hflag
      cases hflag
    · intro hnot
      refine h.dest fun i => ?_
      exact (Bool.eq_false_iff.2 fun hflag => hnot i ((h.flagged i rn).2 hflag)).symm
  · exact iff_of_true h fun hdel' => absurd hdel' hdel

/-- The destination of a node that is processed is taken away: all its entries are removed, and the FPM has nothing to
do. -/
def RibDest.Dies (trigger : Bool) (dest : RibDest) : Prop :=
  (∀ rib ∈ dest.routes, rib.removed = true) ∧ trigger = false ∧ dest.updateFpm = false ∧ dest.sentToFpm = false

theorem dies_iff {dest : RibDest} : ribCanDeleteDest (dest.processed trigger) = true ↔ dest.Dies trigger := by
  unfold ribCanDeleteDest RibDest.processed RibDest.Dies
  simp [filter_eq_nil_iff, and_comm, and_left_comm]

/-- The destination after `rib_process`. -/
theorem ribProcess_dest (trigger : Bool) (s : RibQueue) (rn : Nat) : (ribProcess trigger s rn).dest = update s.dest rn
    ((s.dest rn).bind fun d =>
      if ribCanDeleteDest (d.processed trigger) then none else some (d.processed trigger)) := by
  unfold ribProcess ribGcDest
  simp only [update_self]
  rcases hdest : s.dest rn with _ | d
  · rfl
  · by_cases hdel : ribCanDeleteDest (d.processed trigger) = true <;> simp [hdel]

theorem flag_takeFrom (rn' : Nat) (j : QueueIndex) : (takeFrom trigger s i rn).flag rn' j =
    if rn' = rn then decide (j ≠ i) && s.flag rn j && !(s.dest rn).any (fun d => ribCanDeleteDest (d.processed trigger))
    else s.flag rn' j := by
  have hdest : (takeFrom trigger s i rn).dest = update s.dest rn
      (((s.dest rn).bind fun d =>
        if ribCanDeleteDest (d.processed trigger) then none else some (d.processed trigger)).map fun d =>
          { d with queued := update d.queued i false }) := by
    show update (ribProcess trigger s rn).dest rn _ = _
    rw [ribProcess_dest, update_self, update_idem]
  rw [flag_update hdest]
  split
  · unfold flag
    rcases s.dest rn with _ | d
    · simp
    by_cases hdel : ribCanDeleteDest (d.processed trigger) = true
    · simp [hdel]
    by_cases hj : j = i
    · subst hj
      simp [hdel]
    · have hqueued : (d.processed trigger).queued = d.queued := rfl
      simp [hdel, hj, hqueued]
  · rfl

/-- Where the destination of the node is taken away, the node may be in no other sub-queue. -/
theorem marked_takeFrom_iff (h : s.Marked) (hnext : s.next = some (i, rn)) : (takeFrom trigger s i rn).Marked ↔
    ∀ d ∈ s.dest rn, d.Dies trigger → ∀ j, j ≠ i → rn ∉ s.subq j := by
  have hcons := next_spec hnext
  have hnd := hcons ▸ h.nodup i
  rw [nodup_cons] at hnd
  have hsubq : (takeFrom trigger s i rn).subq = update s.subq i (s.subq i).tail := rfl
  constructor
  · intro h' d hd hdies j hj hmem
    have hflag := (h'.flagged j rn).1 (by rwa [hsubq, update_of_ne hj])
    rw [flag_takeFrom, if_pos rfl, mem_def.1 hd, any_some, dies_iff.2 hdies] at hflag
    simp at hflag
  · intro hnot
    constructor
    · exact (forall_update_iff _ fun _ => Nodup).2 ⟨hnd.2, fun j _ => h.nodup j⟩
    · intro j rn'
      rw [hsubq, flag_takeFrom]
      have hold := h.flagged j rn'
      by_cases hj : j = i
      · subst hj
        rw [update_self]
        by_cases hrn : rn' = rn
        · subst hrn
          simpa using hnd.1
        · rw [if_neg hrn, ← hold, hcons, tail_cons, mem_cons]
          exact ⟨.inr, fun hor => hor.resolve_left hrn⟩
      · rw [update_of_ne hj, hold]
        by_cases hrn : rn' = rn
        · subst hrn
          by_cases hmem : rn' ∈ s.subq j
          · have hlives : (s.dest rn').any (fun d => ribCanDeleteDest (d.processed trigger)) = false := by
              rw [Option.any_eq_false]
              intro d hd
              exact Bool.eq_false_iff.2 fun hdel => hnot d hd (dies_iff.1 hdel) j hj hmem
            simp [hj, hlives]
          · have hflag : s.flag rn' j = false := Bool.eq_false_iff.2 fun hf => hmem (hold.2 hf)
            simp [hflag]
        · rw [if_neg hrn]

/-- The steps that keep the flags in order. -/
def QueueOp.Keeps (s : RibQueue) : QueueOp → Prop
  | .gc rn => (s.dest rn).any ribCanDeleteDest = true → ∀ i, rn ∉ s.subq i
  | .run trigger => s.items ≠ 0 → ∀ i rn, s.next = some (i, rn) → ∀ d ∈ s.dest rn, d.Dies trigger →
      ∀ j, j ≠ i → rn ∉ s.subq j
  | _ => True

theorem marked_step_iff (s : RibQueue) (op : QueueOp) (h : s.Marked) : (step s op).Marked ↔ QueueOp.Keeps s op := by
  cases op with
  | add rn type =>
    refine iff_of_true ?_ trivial
    refine RibQueue.Marked.queueAdd ?_ rn
    refine h.dest fun i => ?_
    unfold flag
    cases s.dest rn <;> rfl
  | delete rn place =>
    refine iff_of_true ?_ trivial
    unfold step ribDelnode
    dsimp only
    split
    · rename_i dest hdest
      refine RibQueue.Marked.queueAdd ?_ rn
      refine h.dest fun i => ?_
      unfold flag
      rw [hdest]
      rfl
    · exact h
  | queue rn => exact iff_of_true (h.queueAdd rn) trivial
  | fpm rn sent updateFpm =>
    refine iff_of_true (h.dest fun i => ?_) trivial
    unfold flag
    cases s.dest rn <;> rfl
  | gc rn => exact marked_gc_iff h rn
  | run trigger =>
    unfold step QueueOp.Keeps workQueueRun
    dsimp only
    by_cases hitems : s.items = 0
    · rw [if_pos hitems]
      exact iff_of_true h fun hne => absurd hitems hne
    rw [if_neg hitems, forall_prop_of_true hitems]
    -- Whether the item stays has no part in it.
    have hitem : ∀ t : RibQueue, (if t.size = 0 then { t with items := t.items - 1 } else t).Marked ↔ t.Marked := by
      intro t
      split
      · exact ⟨fun ht => { ht with }, fun ht => { ht with }⟩
      · rfl
    rw [hitem, metaQueueProcess_eq]
    rcases hnext : s.next with _ | ⟨i, rn⟩
    · exact iff_of_true h fun _ _ hsome => by cases hsome
    refine (marked_takeFrom_iff h hnext).trans ⟨?_, fun hall => hall i rn rfl⟩
    rintro hall _ _ ⟨⟩
    exact hall

end Marked

/-! ## Every node is served -/

section Served
variable {s : RibQueue} {rn : Nat} {i : QueueIndex}

/-- The nodes for which the work queue calls `rib_process` when it runs again and again. -/
def processedNodes : List Bool → RibQueue → List Nat
  | [], _ => []
  | trigger :: triggers, s =>
    let (rnode, s) := workQueueRun trigger s
    rnode.toList ++ processedNodes triggers s

/-- A run of the work queue with its item. -/
theorem workQueueRun_eq (hitems : s.items ≠ 0) (trigger : Bool) : (workQueueRun trigger s).1 = s.next.map Prod.snd ∧
    (workQueueRun trigger s).2.subq = (s.next.elim s fun r => takeFrom trigger s r.1 r.2).subq := by
  unfold workQueueRun
  rw [if_neg hitems, metaQueueProcess_eq]
  rcases s.next with _ | ⟨i, rn⟩
  · refine ⟨rfl, ?_⟩
    dsimp only [Option.elim]
    split <;> rfl
  · refine ⟨rfl, ?_⟩
    dsimp only [Option.elim]
    split <;> rfl

/-- A queued node is the next one, or is still queued after it. -/
theorem mem_takeFrom (hnext : s.next = some (i, rn)) {rn' : Nat} {j : QueueIndex} (hmem : rn' ∈ s.subq j)
    (trigger : Bool) : rn' = rn ∨ rn' ∈ (takeFrom trigger s i rn).subq j := by
  show rn' = rn ∨ rn' ∈ update s.subq i (s.subq i).tail j
  by_cases hj : j = i
  · subst hj
    rw [update_self]
    rw [next_spec hnext] at hmem
    exact mem_cons.1 hmem
  · rw [update_of_ne hj]
    exact .inr hmem

/-- As many runs as there are entries serve all of them. -/
theorem mem_processedNodes : ∀ {triggers : List Bool} {s : RibQueue}, s.Counted → s.total < 2 ^ 32 →
    triggers.length = s.total → ∀ {i : QueueIndex} {rn : Nat}, rn ∈ s.subq i → rn ∈ processedNodes triggers s
  | [], s, _, _, hlength, i, rn, hmem => by
    have htot : s.total = 0 := hlength.symm
    have hemp : (s.subq i).length = 0 := Finset.sum_eq_zero_iff.1 htot i (Finset.mem_univ i)
    rw [length_eq_zero_iff] at hemp
    rw [hemp] at hmem
    cases hmem
  | trigger :: triggers, s, hcnt, hbd, hlength, i, rn, hmem => by
    rw [length_cons] at hlength
    have hsize : s.size ≠ 0 := by
      rw [hcnt.size, ← UInt32.toNat_inj.ne, UInt32.toNat_ofNat_of_lt' hbd]
      show s.total ≠ 0
      omega
    obtain ⟨hserved, hsubq⟩ := workQueueRun_eq (hcnt.item hsize) trigger
    rcases hnext : s.next with _ | ⟨j, first⟩
    · rw [next_none hnext i] at hmem
      cases hmem
    rw [hnext] at hserved hsubq
    unfold processedNodes
    dsimp only
    rw [hserved]
    rcases mem_takeFrom hnext hmem trigger with rfl | hrest
    · exact mem_append_left _ (mem_singleton_self _)
    refine mem_append_right _ ?_
    have htot := total_takeFrom trigger hnext
    have hnexttotal : (workQueueRun trigger s).2.total = (takeFrom trigger s j first).total := by
      unfold total
      rw [hsubq]
      rfl
    refine mem_processedNodes (hcnt.run trigger) (by omega) (by omega) (hsubq ▸ hrest)

/-- The sub-queues, one after the other. -/
def RibQueue.waiting (s : RibQueue) : List Nat := (finRange 5).flatMap s.subq

theorem waiting_takeFrom (hnext : s.next = some (i, rn)) (trigger : Bool) :
    s.waiting = rn :: (takeFrom trigger s i rn).waiting := by
  obtain ⟨l1, _, l2, hl, hi, hl1⟩ := findSome?_eq_some_iff.1 hnext
  obtain ⟨_, -, ⟨⟩⟩ := map_eq_some_iff.1 hi
  have hnd := hl ▸ nodup_finRange 5
  have hemp : l1.flatMap s.subq = [] := flatMap_eq_nil_iff.2 fun j hj => by simpa using hl1 j hj
  have hother : ∀ j ∈ l1 ++ l2, update s.subq i (s.subq i).tail j = s.subq j := fun j hj => update_of_ne (by grind) ..
  simp only [waiting, takeFrom, hl, flatMap_append, flatMap_cons, update_self, hemp, nil_append,
    flatMap_congr fun j hj => hother j (mem_append_left _ hj),
      flatMap_congr fun j hj => hother j (mem_append_right _ hj)]
  rw [next_spec hnext]
  rfl

/-- What has been processed, and then what still waits, is what waited before. -/
theorem processedNodes_waiting (triggers : List Bool) (s : RibQueue) :
    processedNodes triggers s ++ (triggers.foldl (fun s trigger => (workQueueRun trigger s).2) s).waiting =
      s.waiting := by
  induction triggers generalizing s with
  | nil => rfl
  | cons trigger triggers ih =>
    unfold processedNodes
    dsimp only
    rw [foldl_cons, append_assoc, ih]
    by_cases hitems : s.items = 0
    · unfold workQueueRun
      rw [if_pos hitems]
      rfl
    obtain ⟨hserved, hsubq⟩ := workQueueRun_eq hitems trigger
    rw [hserved, RibQueue.waiting, hsubq]
    rcases hnext : s.next with _ | ⟨i, rn⟩
    · rfl
    · rw [waiting_takeFrom hnext trigger]
      rfl

end Served

/-- Whatever happens, the size is the sum of the lengths, the work queue holds the item while it is positive, and every
queued node is served. The flags tell the nodes that are queued, in all states of the runs in which no destination is
taken away whose node waits in a sub-queue (another one, where it is processed), and of no others. -/
theorem metaQueue_runs (ops : List QueueOp) :
    (Always step (fun s => s.Counted ∧ s.Marked) ops {} ↔ Meets step QueueOp.Keeps ops {}) ∧
    Always step (fun s => s.Counted ∧ (s.total < 2 ^ 32 → ∀ triggers : List Bool, triggers.length = s.total →
      ∀ i, ∀ rn ∈ s.subq i, rn ∈ processedNodes triggers s)) ops {} := by
  have hcnt := always_of_step counted_step ops counted_start
  constructor
  · rw [← always_iff_meets marked_step_iff ops marked_start]
    exact ⟨fun h => h.mono fun _ => And.right, fun h => hcnt.and h⟩
  · exact hcnt.mono fun s hs => ⟨hs, fun hbd _ hlength _ _ => mem_processedNodes hs hbd hlength⟩

/-- Two routes for a node are added and deleted before the node is processed. -/
def twoPriorities : List QueueOp := [.add 1 .ospf, .add 1 .bgp, .delete 1 0, .delete 1 1, .run false, .add 1 .bgp]

/-- The destination is taken away while the node waits in another sub-queue, and then the node is queued twice. -/
theorem metaQueue_runs_twice : (twoPriorities.foldl step {}).subq 3 = [1, 1] := by
  decide

end Tarpan.Zebra
