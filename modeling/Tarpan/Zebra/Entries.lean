/-
The entries of zebra in its three models. The route that a client's message gives is the entry that the node of the
prefix gets, and the meta queue sees the entries of the node come, be removed, and go when `rib_process` has run.
-/
import Tarpan.Zebra.MetaQueue
import Tarpan.Zebra.Zapi
import Tarpan.ZebraRib.Runs

namespace Tarpan.Zebra

open List Function

/-! ## From the message to the node -/

/-- The `ZEBRA_FLAG_*` of an octet. -/
def ribFlags (flags : UInt8) : ZebraRib.RibFlags where
  internal := checkFlag flags 0x01
  selfroute := checkFlag flags 0x02
  blackhole := checkFlag flags zebraFlagBlackhole
  ibgp := checkFlag flags zebraFlagIbgp
  selected := checkFlag flags 0x10
  changed := checkFlag flags 0x20
  static := checkFlag flags 0x40
  reject := checkFlag flags 0x80

/-- What `nexthop_add` puts into the entry, for IPv4. -/
def Nexthop.given : Nexthop → Option (ZebraRib.NexthopType × UInt32 × UInt32 × String)
  | .ifindex i => some (.ifindex, 0, i, "")
  | .ipv4 gate => some (.ipv4, gate, 0, "")
  | .ipv4Ifindex gate i => some (.ipv4Ifindex, gate, i, "")
  | .blackhole => some (.blackhole, 0, 0, "")
  | .ipv6 _ | .ipv6Ifindex _ _ => none

/-- The route of a message as an entry of a node. -/
def Rib.entry (rib : Rib) (table : UInt32) : ZebraRib.Rib where
  type := rib.type.toNat
  flags := ribFlags rib.flags
  table := table
  metric := rib.metric
  distance := rib.distance
  nexthop := (rib.nexthops.filterMap Nexthop.given).map fun h =>
    { type := h.1, gate := h.2.1, ifindex := h.2.2.1, ifname := h.2.2.2 }

/-- The distances of `route_info`, with what lies behind it. -/
def routeInfoOf (beyond type : UInt8) : UInt8 := (ZebraRib.routeInfo type.toNat).getD beyond

/-- Both models give a route without a distance the same one. -/
theorem entry_distance (beyond : UInt8) (rib : Rib) (table : UInt32) :
    ((ribAddIpv4Multipath (routeInfoOf beyond) rib).entry table).distance =
      ZebraRib.defaultDistance (routeInfoOf beyond rib.type) rib.type.toNat (ribFlags rib.flags) rib.distance := by
  have htype : rib.type = zebraRouteBgp ↔ rib.type.toNat = ZebraRib.zebraRouteBgp := UInt8.toNat_inj.symm
  unfold ribAddIpv4Multipath ZebraRib.defaultDistance defaultDistance
  split_ifs with hdist hinternal hinternal' hinternal'
  · rfl
  · exact absurd ⟨htype.1 hinternal.1, hinternal.2⟩ hinternal'
  · exact absurd ⟨htype.2 hinternal'.1, hinternal'.2⟩ hinternal
  · rfl
  · rfl

/-- `rib_add_ipv4_multipath` links the entry of the route that `zread_ipv4_add` has read, and marks the one that it
replaces. -/
theorem ribAddIpv4Multipath_entry (n : ZebraRib.Node) (beyond : UInt8) (rib : Rib) (table : UInt32) :
    ∃ same : Option Nat, ZebraRib.ribAddIpv4Multipath n beyond rib.type.toNat (ribFlags rib.flags) table rib.metric
        rib.distance (rib.nexthops.filterMap Nexthop.given) =
      (fun n => same.elim n (ZebraRib.ribDelnode n)) (ZebraRib.ribAddnode n
        (ZebraRib.fibOfKernel ((ribAddIpv4Multipath (routeInfoOf beyond) rib).entry table))) := by
  have hentry : (ribAddIpv4Multipath (routeInfoOf beyond) rib).entry table = { rib.entry table with
      distance := ZebraRib.defaultDistance (routeInfoOf beyond rib.type) rib.type.toNat (ribFlags rib.flags)
        rib.distance } := by
    rw [← entry_distance beyond rib table]
    unfold ribAddIpv4Multipath
    split <;> rfl
  rw [hentry]
  exact ⟨_, rfl⟩

/-! ## From the node to the queue -/

/-- The number of a type. -/
def RouteType.number : RouteType → Nat
  | system => 0
  | kernel => 1
  | connect => 2
  | static => 3
  | rip => 4
  | ripng => 5
  | ospf => 6
  | ospf6 => 7
  | isis => 8
  | bgp => 9
  | pim => 10
  | hsls => 11
  | olsr => 12
  | babel => 13

/-- What the queue sees of the entries of a node: their types, and which of them are removed. -/
def RibQueue.seen (s : RibQueue) (rn : Nat) : List (Nat × Bool) :=
  (rnodeToRibs s rn).map fun rib => (rib.type.number, rib.removed)

/-- The queue sees the entries that the node has. -/
def Shows (s : RibQueue) (rn : Nat) (n : ZebraRib.Node) : Prop :=
  s.seen rn = n.routes.map fun a => ((n.rib a).type, (n.rib a).removed)

section Queue
variable (s : RibQueue) (rn : Nat)

theorem rnodeToRibs_of_dest {dest : Option RibDest} (h : s.dest rn = dest) :
    rnodeToRibs s rn = dest.elim [] RibDest.routes := by
  rw [rnodeToRibs, h]

theorem rnodeToRibs_push (i : QueueIndex) : rnodeToRibs (metaQueuePush s rn i) rn = rnodeToRibs s rn := by
  unfold metaQueuePush
  split
  · rename_i dest hdest
    split
    · rfl
    · rw [rnodeToRibs_of_dest s rn hdest, rnodeToRibs_of_dest _ rn (update_self ..)]
      rfl
  · rfl

/-- A node that is queued keeps its entries. -/
theorem rnodeToRibs_queueAdd : rnodeToRibs (ribQueueAdd s rn) rn = rnodeToRibs s rn := by
  have hpushed : ∀ (ribs : List QueuedRib) (t : RibQueue),
      rnodeToRibs (ribs.foldl (fun t rib => metaQueuePush t rn (metaQueueMap rib.type)) t) rn = rnodeToRibs t rn := by
    intro ribs
    induction ribs with
    | nil => exact fun _ => rfl
    | cons rib ribs ih => exact fun t => (ih _).trans (rnodeToRibs_push t rn _)
  unfold ribQueueAdd
  split
  · rfl
  · refine (hpushed _ _).trans ?_
    unfold ribqHold
    split <;> rfl

theorem seen_link (type : RouteType) : (ribLink s rn { type }).seen rn = (type.number, false) :: s.seen rn := by
  unfold RibQueue.seen ribLink
  rw [rnodeToRibs_queueAdd, rnodeToRibs_of_dest _ rn (update_self ..)]
  unfold rnodeToRibs
  cases s.dest rn <;> rfl

theorem seen_delnode (place : Nat) :
    (ribDelnode s rn place).seen rn = (s.seen rn).modify place fun entry => (entry.1, true) := by
  unfold RibQueue.seen ribDelnode
  split
  · rename_i dest hdest
    rw [rnodeToRibs_queueAdd, rnodeToRibs_of_dest _ rn (update_self ..), rnodeToRibs_of_dest s rn hdest]
    refine ext_getElem? fun i => ?_
    simp only [Option.elim_some, getElem?_map, getElem?_modify]
    cases dest.routes[i]? with
    | none => rfl
    | some rib => by_cases hi : place = i <;> simp [hi]
  · rename_i hdest
    rw [rnodeToRibs_of_dest s rn hdest]
    cases place <;> rfl

/-- A destination is taken away only where it has no entries. -/
theorem seen_process (trigger : Bool) : (ribProcess trigger s rn).seen rn = (s.seen rn).filter (!·.2) := by
  have hribs : rnodeToRibs (ribProcess trigger s rn) rn = (rnodeToRibs s rn).filter (!·.removed) := by
    have hdest := (congrFun (ribProcess_dest trigger s rn) rn).trans (update_self ..)
    rw [rnodeToRibs_of_dest _ rn hdest, rnodeToRibs]
    cases s.dest rn with
    | none => rfl
    | some dest =>
      dsimp only [Option.bind_some]
      split_ifs with hdel
      · have hnone : dest.routes.filter (!·.removed) = [] := isEmpty_iff.1 (of_decide_eq_true hdel).1
        exact hnone.symm
      · rfl
  unfold RibQueue.seen
  rw [hribs, filter_map]
  rfl

end Queue

variable {s : RibQueue} {rn a place : Nat} {n n' : ZebraRib.Node}

section
variable (h : Shows s rn n) (hsound : n.Sound)
include h hsound

/-- A new entry is linked to the node. -/
theorem Shows.link {rib : ZebraRib.Rib} {type : RouteType} (htype : type.number = rib.type)
    (hremoved : rib.removed = false) :
    Shows (ribLink s rn { type }) rn (ZebraRib.ribAddnode n rib) := by
  have hnew : (ZebraRib.ribAddnode n rib).rib n.brk = rib := update_self ..
  have hold : ∀ b ∈ n.routes, (ZebraRib.ribAddnode n rib).rib b = n.rib b := fun b hb =>
    update_of_ne (hsound.old b hb).ne ..
  have hroutes : (ZebraRib.ribAddnode n rib).routes = n.brk :: n.routes := rfl
  rw [Shows, seen_link, h, hroutes, map_cons, hnew, htype, hremoved]
  exact congrArg _ (map_congr_left fun b hb => by rw [hold b hb])

/-- An entry is removed. -/
theorem Shows.delete (ha : n.routes[place]? = some a) : Shows (ribDelnode s rn place) rn (ZebraRib.ribDelnode n a) := by
  rw [Shows, seen_delnode, h]
  refine ext_getElem? fun i => ?_
  have hroutes : (ZebraRib.ribDelnode n a).routes = n.routes := rfl
  rw [getElem?_modify, getElem?_map, getElem?_map, hroutes]
  cases hb : n.routes[i]? with
  | none => rfl
  | some b =>
    by_cases hi : place = i
    · subst hi
      cases ha.symm.trans hb
      have hrib : (ZebraRib.ribDelnode n a).rib a = { n.rib a with removed := true } := update_self ..
      simp [hrib]
    · have hne : b ≠ a := by
        rintro rfl
        have hlt : place < n.routes.length := (List.getElem?_eq_some_iff.1 ha).1
        exact hi ((getElem?_inj hlt hsound.nodup).1 (ha.trans hb.symm))
      have hrib : (ZebraRib.ribDelnode n a).rib b = n.rib b := update_of_ne hne ..
      simp [hi, hrib]

/-- `rib_process` unlinks in both what was removed. -/
theorem Shows.process {w : ZebraRib.World} (hproc : ZebraRib.ribProcess w n = some n') (trigger : Bool) :
    Shows (ribProcess trigger s rn) rn n' := by
  obtain ⟨_, hproc', hselects, -⟩ := ZebraRib.ribProcess_spec hsound w
  cases hproc'.symm.trans hproc
  rw [Shows, seen_process, h, hselects.routes, filter_map]
  refine map_congr_left fun b _ => ?_
  have hcore := ZebraRib.ribProcess_core hsound hproc b
  rw [ZebraRib.removed_of_core hcore, show (n'.rib b).type = (n.rib b).type from congrArg (·.1) hcore]

end

end Tarpan.Zebra
