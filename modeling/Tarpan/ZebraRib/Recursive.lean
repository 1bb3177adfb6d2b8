/-
Recursive next hops: after `rib_process` the kernel holds what the next hops of the selected route resolve to now, if
the route was not selected before or one of its own next hops changed its state or its interface; otherwise it holds
what they resolved to before.
-/
import Tarpan.ZebraRib.Runs

namespace Tarpan.ZebraRib

open Base List Function Rib

variable {w : World} {n n' : Node} {a b : Nat} {rib rib' : Rib} {nh : Nexthop} {set : Bool}

/-! ## What a next hop resolves to -/

section
variable (w : World) (top : Nat) (rib : Rib) (nh : Nexthop)

theorem check_congr (rib' : Rib) (set : Bool) (hinternal : rib'.flags.internal = rib.flags.internal)
    (htype : rib'.type = rib.type) :
    nexthopActiveCheck w top rib' nh set = nexthopActiveCheck w top rib nh set := by
  simp [nexthopActiveCheck, nexthopReachable, nexthopActiveIpv4_eq, systemRoute, hinternal, htype]

/-- Apart from next hops that are not looked at, a check does not see an earlier one. -/
theorem reachable_twice (x : Bool) (h : nh.type ≠ .ipv4Ifname ∧ nh.type ≠ .unset) :
    nexthopReachable w top rib { nexthopReachable w top rib nh false with active := x } true =
      nexthopReachable w top rib nh true := by
  obtain ⟨⟨type, gate, ifindex, ifname, active, fib, onlink⟩, resolved⟩ := nh
  cases type <;> simp [nexthopReachable, nexthopActiveIpv4_eq] at h ⊢

theorem setFib_resolvedHop (gate : UInt32) (newhop : Nexthop) :
    { resolvedHop gate newhop with fib := false } = resolvedHop gate newhop := by
  have hfib : (resolvedHop gate newhop).fib = false := by
    rw [resolvedHop]
    split
    · split
      · split <;> rfl
      · rfl
    · split
      · split <;> rfl
      · rfl
  rw [← hfib]

theorem reachable_setFib :
    nexthopReachable w top rib (nh.setFib false) true = (nexthopReachable w top rib nh true).setFib false := by
  obtain ⟨⟨type, gate, ifindex, ifname, active, fib, onlink⟩, resolved⟩ := nh
  cases type <;> simp [nexthopReachable, nexthopActiveIpv4_eq, Nexthop.setFib, setFib_resolvedHop]

theorem check_twice :
    nexthopActiveCheck w top rib (nexthopActiveCheck w top rib nh false) true =
      nexthopActiveCheck w top rib nh true := by
  by_cases h : nh.type ≠ .ipv4Ifname ∧ nh.type ≠ .unset
  · rw [check_eq rib w top nh false, check_eq, reachable_twice w top rib nh _ h, ← check_eq]
  -- the state of such a next hop is only ever cleared
  have hsame : ∀ (x set : Bool), nexthopReachable w top rib { nh with active := x } set = { nh with active := x } := by
    intro x set
    rw [nexthopReachable]
    rcases not_and_or.1 h with htype | htype <;> rw [not_not.1 htype]
  have hself : ∀ set, nexthopReachable w top rib nh set = nh := fun set => hsame nh.active set
  rw [check_eq rib w top nh false, hself, check_eq, hsame, check_eq, hself]
  simp

theorem check_setFib :
    nexthopActiveCheck w top rib (nh.setFib false) true = (nexthopActiveCheck w top rib nh true).setFib false := by
  rw [check_eq, check_eq, reachable_setFib]
  rfl

/-! ## Messages to the kernel -/

def Rib.messages : List KernelHop := (rib.addHops w).map Hop.message

end

theorem setFib_leaves (x : Bool) (nh : Nexthop) :
    (nh.setFib x).leaves = nh.leaves.map fun hop => { hop with fib := x } := by
  have hrec : (nh.setFib x).recursive = nh.recursive := by simp [Nexthop.recursive, Nexthop.setFib]
  rw [Nexthop.leaves, Nexthop.leaves, hrec]
  split <;> rfl

theorem messages_setFib (w : World) (x : Bool) (h : rib'.nexthop = rib.nexthop.map (·.setFib x)) :
    rib'.messages w = rib.messages w := by
  have hleaves : rib'.leaves = rib.leaves.map fun hop => { hop with fib := x } := by
    rw [leaves, leaves, h, flatMap_map, map_flatMap]
    exact flatMap_congr fun nh _ => setFib_leaves x nh
  have hlimit : w.limit (rib.leaves.map fun hop => { hop with fib := x }) = w.limit rib.leaves := by
    rw [World.limit, World.limit, length_map]
  rw [messages, messages, addHops, addHops, hleaves, hlimit, filter_map, ← map_take, map_map]
  rfl

/-- What the next hops of an entry resolve to now. -/
def resolvedNow (w : World) (n : Node) (a : Nat) : List KernelHop :=
  (nexthopActiveUpdate w n.id (n.rib a) true).messages w

theorem update_twice (w : World) (top : Nat) (rib : Rib) :
    (nexthopActiveUpdate w top (nexthopActiveUpdate w top rib false) true).nexthop =
      (nexthopActiveUpdate w top rib true).nexthop := by
  change (map _ (map _ _)) = map _ _
  rw [map_map]
  refine map_congr_left fun nh _ => ?_
  rw [comp_apply, check_congr w top rib _ (nexthopActiveUpdate w top rib false) true rfl rfl, check_twice]

theorem update_twice_setFib (w : World) (top : Nat) (rib : Rib) :
    (nexthopActiveUpdate w top ((nexthopActiveUpdate w top rib false).setFib false) true).nexthop =
      (nexthopActiveUpdate w top rib true).nexthop.map (·.setFib false) := by
  change (map _ (map _ (map _ _))) = map _ (map _ _)
  rw [map_map, map_map, map_map]
  refine map_congr_left fun nh _ => ?_
  rw [comp_apply, comp_apply, comp_apply, check_setFib,
    check_congr w top rib _ ((nexthopActiveUpdate w top rib false).setFib false) true rfl rfl, check_twice]

/-- The next hops that the kernel holds for an entry. -/
def installedHops (n : Node) (a : Nat) : List KernelHop := ((n.kernel a).map KernelRoute.hops).getD []

theorem installedHops_install (hker : n.kernel a = none) (hunicast : n.unicast = true) (hadd : w.kernelAdd = true)
    (hdiscard : (n.rib a).discard = false) : installedHops (ribInstallKernel w n a) a = (n.rib a).messages w := by
  rw [ribInstallKernel, if_neg (by simp [hunicast])]
  by_cases hsends : (n.rib a).sendsAdd w
  · rw [if_neg (by simp [hsends]), if_pos hadd, installedHops]
    dsimp only
    rw [update_self, Option.map_some, Option.getD_some, kernelRoute, if_neg (by simp [hdiscard])]
    rfl
  · have hnone : (n.rib a).addHops w = [] := by simpa [sendsAdd, hdiscard] using hsends
    rw [if_pos (by simp [hsends]), installedHops, messages, hnone]
    change ((n.kernel a).map KernelRoute.hops).getD [] = _
    rw [hker]
    rfl

/-! ## After `rib_process` -/

/-- A next hop of the entry itself has another state or interface than before. -/
def ChangedNow (w : World) (n : Node) (a : Nat) : Prop := (checked w n a).flags.changed = true

instance ChangedNow.decidable (w : World) (n : Node) (a : Nat) : Decidable (ChangedNow w n a) :=
  inferInstanceAs (Decidable (_ = true))

/-- A next hop of the entry is in the kernel. -/
def inFib (rib : Rib) : Bool := rib.nexthop.any fun nh => nh.fib || (nh.recursive && nh.resolved.any (·.fib))

/-- What the kernel holds or is given if the next hops are not resolved again. -/
def storedHops (w : World) (n : Node) (a : Nat) : List KernelHop :=
  if inFib (n.rib a) then installedHops n a else (checked w n a).messages w

theorem inFib_checked (w : World) (top : Nat) (rib : Rib) :
    inFib (nexthopActiveUpdate w top rib false) = inFib rib := by
  change any (map _ _) _ = _
  rw [any_map]
  refine congrArg (any rib.nexthop) (funext fun nh => ?_)
  obtain ⟨hfib, hres⟩ := check_same rib w top nh
  rw [comp_apply, hfib, hres, Nexthop.recursive, hres]
  rfl

theorem uninstall_rib (w : World) (hunicast : n.unicast = true) :
    (ribUninstallKernel w n a).rib a = (n.rib a).setFib false := by
  rw [ribUninstallKernel, if_neg (by simp [hunicast])]
  split <;> exact setRib_rib _

/-- The kernel holds nothing of an entry without marked next hops. -/
theorem KernelFits.kernel_none (h : KernelFits n a) (hdiscard : (n.rib a).discard = false)
    (hin : inFib (n.rib a) = false) :
    n.kernel a = none := by
  by_contra hsome
  obtain ⟨-, -, hheld⟩ := h hsome
  rcases hheld with hheld | ⟨hop, hmem, hfib⟩
  · rw [hdiscard] at hheld
    cases hheld
  · rw [not_fib_of_any (ne_true_of_eq_false hin) hop hmem] at hfib
    cases hfib

section
variable (hsystem : (n.rib a).systemRoute = false)
include hsystem

theorem updateFib_changed (hchg : (n.rib a).flags.changed = true) :
    updateFib w n a = ribInstallKernel w (activeUpdate w (ribUninstallKernel w n a) a true) a := by
  have hcore := (activeUpdate_touches w (ribUninstallKernel w n a) a true).core.trans
    (ribUninstallKernel_touches w n a).core
  have hfirst : unlessSystem n a (ribUninstallKernel w) = ribUninstallKernel w n a := if_neg (by simp [hsystem])
  rw [updateFib, if_pos hchg]
  rw [hfirst, unlessSystem, system_of_core hcore, if_neg (by simp [hsystem])]

theorem updateFib_held (hchg : (n.rib a).flags.changed = false)
    (hin : inFib (n.rib a) = true) : updateFib w n a = n := by
  rw [updateFib, if_neg (by simp [hchg]), if_neg (by simp [hsystem])]
  exact if_pos hin

theorem updateFib_missing (hchg : (n.rib a).flags.changed = false)
    (hin : inFib (n.rib a) = false) : updateFib w n a = ribInstallKernel w n a := by
  rw [updateFib, if_neg (by simp [hchg]), if_neg (by simp [hsystem])]
  exact if_neg (ne_true_of_eq_false hin)

variable (hdiscard : (n.rib a).discard = false) (hadd : w.kernelAdd = true)
include hdiscard hadd

section
variable {m : Node} (hid : m.id = n.id) (hrib : m.rib a = checked w n a) (hunicast : m.unicast = true)
include hid hrib hunicast

theorem installedHops_updateFib (h : KernelFits m a) (hker : m.kernel a = n.kernel a) :
    installedHops (updateFib w m a) a = if ChangedNow w n a then resolvedNow w n a else storedHops w n a := by
  have hsys0 : (m.rib a).systemRoute = false := by rw [hrib]; exact hsystem
  have hdis0 : (m.rib a).discard = false := by rw [hrib]; exact hdiscard
  split_ifs with hchg
  · rw [updateFib_changed hsys0 (by rw [hrib]; exact hchg)]
    have htouches := ribUninstallKernel_touches w m a
    have htouches' := activeUpdate_touches w (ribUninstallKernel w m a) a true
    have hnone : (activeUpdate w (ribUninstallKernel w m a) a true).kernel a = none := by
      have hnone := uninstalled w h
      rwa [unlessSystem, if_neg (by simp [hsys0])] at hnone
    rw [installedHops_install hnone (by rw [htouches'.unicast, htouches.unicast, hunicast]) hadd
      (by rw [discard_of_core (htouches'.core.trans htouches.core), hdis0])]
    refine messages_setFib w false ?_
    rw [show (activeUpdate w (ribUninstallKernel w m a) a true).rib a = _ from setRib_rib _, uninstall_rib w hunicast,
      htouches.id, hid, hrib, checked, update_twice_setFib]
  · rw [storedHops]
    have hunc : (m.rib a).flags.changed = false := by
      rw [hrib]
      exact eq_false_of_ne_true hchg
    have hfib : inFib (m.rib a) = inFib (n.rib a) := by
      rw [hrib]
      exact inFib_checked w n.id (n.rib a)
    by_cases hin : inFib (n.rib a)
    · rw [if_pos hin, updateFib_held hsys0 hunc (hfib.trans hin), installedHops, hker]
      rfl
    have hnot := hfib.trans (eq_false_of_ne_true hin)
    rw [if_neg hin, updateFib_missing hsys0 hunc hnot,
      installedHops_install (h.kernel_none hdis0 hnot) hunicast hadd hdis0, hrib]

theorem installedHops_addSelect (hker : m.kernel a = none) : installedHops (addSelect w m a) a = resolvedNow w n a := by
  have hself : (activeUpdate w m a true).rib a = nexthopActiveUpdate w n.id (checked w n a) true := by
    rw [show (activeUpdate w m a true).rib a = _ from setRib_rib _, hid, hrib]
  have hsys' : (nexthopActiveUpdate w n.id (checked w n a) true).systemRoute = false := hsystem
  have hdis' : (nexthopActiveUpdate w n.id (checked w n a) true).discard = false := hdiscard
  change installedHops (unlessSystem (activeUpdate w m a true) a (ribInstallKernel w)) a = _
  have hker' : (activeUpdate w m a true).kernel a = none := hker
  have huni' : (activeUpdate w m a true).unicast = true := hunicast
  rw [unlessSystem, hself, if_neg (by simp [hsys']),
    installedHops_install hker' huni' hadd (by rw [hself, hdis']), hself]
  rw [messages, resolvedNow, messages, addHops, addHops, leaves, leaves, checked, update_twice]

end

/-- What the kernel holds for the selected route after `rib_process`. -/
theorem installedHops_process (h : n.Sound) (hunicast : n.unicast = true) (hproc : ribProcess w n = some n')
    (ha : a ∈ n'.routes) (hselected : (n'.rib a).flags.selected = true) :
    installedHops n' a =
      if (n.rib a).flags.selected = true ∧ ¬ChangedNow w n a then storedHops w n a else resolvedNow w n a := by
  rcases scan_all w h.nodup with ⟨-, hnot⟩ | ⟨⟨s, hrun, hs⟩, -⟩
  · exact absurd h.one hnot
  rw [ribProcess, hrun] at hproc
  cases hproc
  obtain ⟨n1, hchosen, happly⟩ := applyScan_chosen h hs
  -- the loop has found the entry
  have hmem : a ∈ n.routes ∧ (n.rib a).removed = false := by
    rw [happly] at ha
    simpa using mem_filter.1 ha
  have hsel : s.select = some a := (hchosen.selected a hmem.1).1 (by rwa [happly] at hselected)
  have hrib : s.node.rib a = checked w n a := by
    rw [hs.node]
    exact if_pos hmem
  have hnode : s.node.id = n.id ∧ s.node.unicast = n.unicast ∧ s.node.kernel = n.kernel := by
    rw [hs.node]
    exact ⟨rfl, rfl, rfl⟩
  rw [applyScan, hsel]
  by_cases hbef : (n.rib a).flags.selected = true
  · have hfib : s.fib = some a := by
      rw [hs.fib]
      cases hfind : n.routes.find? fun a => (n.rib a).flags.selected with
      | none => exact absurd hbef (find?_eq_none.1 hfind a hmem.1)
      | some f =>
        have hf := find?_some hfind
        rw [h.one f (mem_of_find?_eq_some hfind) a hmem.1 hf hbef]
    rw [hfib, if_pos ⟨rfl, rfl⟩]
    have hfits : KernelFits s.node a := hs.node ▸ scannedNode_fits w n.routes (h.fits a)
    have hkept := installedHops_updateFib hsystem hdiscard hadd hnode.1 hrib (hnode.2.1.trans hunicast) hfits
      (by rw [hnode.2.2])
    change installedHops (updateFib w s.node a) a = _
    rw [hkept]
    by_cases hchg : ChangedNow w n a
    · rw [if_pos hchg, if_neg fun hboth => hboth.2 hchg]
    · rw [if_neg hchg, if_pos ⟨hbef, hchg⟩]
  · have hne : ∀ f, s.fib = some f → a ≠ f := by
      rintro f hf rfl
      rw [hs.fib] at hf
      have hf' := find?_some hf
      exact hbef hf'
    rw [if_neg (by rintro ⟨-, heq⟩; exact hne a heq.symm rfl), if_neg fun hboth => hbef hboth.1]
    have hrem := (removeFib_chosen h hs).1
    have hker : (s.cleared w).kernel a = none := by
      by_contra hsome
      cases hrem.kernel a hsome
    have hrest : (s.cleared w).id = n.id ∧ (s.cleared w).rib a = checked w n a := by
      rw [Scan.cleared]
      cases hfib : s.fib with
      | none => exact ⟨hnode.1, hrib⟩
      | some f =>
        have htouches := removeFib_touches w s.node f
        exact ⟨htouches.id.trans hnode.1, (htouches.rib a (hne f hfib)).trans hrib⟩
    have hadded := installedHops_addSelect hsystem hdiscard hadd hrest.1 hrest.2 (hrem.unicast.trans hunicast) hker
    rw [← hadded]
    cases s.del with
    | none => rfl
    | some d => rfl

end

/-! ## Runs -/

/-- Whatever the rest of the system looks like, after `rib_process` the kernel holds for the selected route what its
next hops resolve to, exactly if the route is a new one, or a next hop of its own changed, or the next hops it had are
those. -/
def ResolvesRight (s : Option Node) : Prop :=
  ∀ n ∈ s, ∀ (w : World) (n' : Node) (a : Nat), n.unicast = true → w.kernelAdd = true → ribProcess w n = some n' →
    a ∈ n'.routes → (n'.rib a).flags.selected = true → (n.rib a).systemRoute = false → (n.rib a).discard = false →
    ((∀ hop, hop ∈ installedHops n' a ↔ hop ∈ resolvedNow w n a) ↔
      ((n.rib a).flags.selected = true → ¬ChangedNow w n a → ∀ hop, hop ∈ storedHops w n a ↔ hop ∈ resolvedNow w n a))

theorem resolvesRight_of_sound (h : n.Sound) : ResolvesRight (some n) := by
  rintro _ ⟨⟩ w n' a hunicast hadd hproc ha hsel hsystem hdiscard
  rw [installedHops_process hsystem hdiscard hadd h hunicast hproc ha hsel]
  split_ifs with hstored
  · exact ⟨fun hsame _ _ => hsame, fun hsame => hsame hstored.1 hstored.2⟩
  · exact iff_of_true (fun _ => Iff.rfl) fun hbef hchg => absurd ⟨hbef, hchg⟩ hstored

/-- In every state of a run, the next `rib_process` leaves the resolved next hops of the selected route current exactly
if the condition holds. -/
theorem recursiveNexthops_runs (id : Nat) (unicast : Bool) (rib : Nat → Rib) (ops : List Op)
    (hmeets : Meets Op.step (fun s op => op.Keeps s) ops (some (emptyNode id unicast rib))) :
    Always Op.step ResolvesRight ops (some (emptyNode id unicast rib)) := by
  refine (always_sound id unicast rib hmeets).mono ?_
  rintro _ ⟨n, rfl, hsnd⟩
  exact resolvesRight_of_sound hsnd

/-- A route of OSPF through the gateway. -/
def ospfRoute (gate ifindex : UInt32) : Rib :=
  { type := 6, distance := 110, flags := { selected := true },
    nexthop := [{ type := .ipv4Ifindex, gate, ifindex, active := true, fib := true }], nexthopActiveNum := 1 }

/-- A route of OSPF, which resolves every address, on the node with the number 1. -/
def ospfWorld (gate ifindex : UInt32) : World :=
  ⟨fun _ => true, fun _ => none, fun _ => [(1, [ospfRoute gate ifindex])], fun _ _ _ _ => false, 1, true⟩

/-- A route of BGP comes in with a recursive next hop. -/
def bgpRouteAdded : Op := .add 9 { internal := true } (some 0x0a000001) 0 0 0 0

theorem recursiveNexthops_runs_bgp :
    Always Op.step ResolvesRight [bgpRouteAdded, .process (ospfWorld 0x0a010101 2)]
      (some (emptyNode 0 true fun _ => { type := 0 })) :=
  recursiveNexthops_runs _ _ _ _ ⟨rfl, trivial, trivial⟩

/-- The route of OSPF that resolves the next hop moves to another gateway, and the kernel keeps the old one. -/
theorem recursiveNexthops_runs_moved :
    ∃ n ∈ [bgpRouteAdded, .process (ospfWorld 0x0a010101 2)].foldl Op.step
      (some (emptyNode 0 true fun _ => { type := 0 })),
      ∃ n' ∈ ribProcess (ospfWorld 0x0a020202 3) n, (n'.rib 0).flags.selected = true ∧
        installedHops n' 0 = [⟨some 0x0a010101, some 2, false⟩] ∧
        resolvedNow (ospfWorld 0x0a020202 3) n 0 = [⟨some 0x0a020202, some 3, false⟩] := by
  decide

end Tarpan.ZebraRib
