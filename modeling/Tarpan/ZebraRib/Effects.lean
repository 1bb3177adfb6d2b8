/-
What `rib_process` does to one entry and to the kernel: an entry that is uninstalled leaves nothing in the kernel, and
the kernel holds routes only of entries whose next hops tell how to delete them.
-/
import Tarpan.ZebraRib.Selection

namespace Tarpan.ZebraRib

open List Function Nexthop

variable {w : World} {n n1 n' : Node} {a b : Nat} {rib : Rib} {x y : Bool} {hop : Hop}

/-! ## One entry at a time -/

/-- What stays of an entry while it is in the list. -/
def Rib.core (rib : Rib) : Nat × UInt32 × UInt8 × Bool × Bool × Nat :=
  (rib.type, rib.metric, rib.distance, rib.removed, rib.discard, rib.nexthop.length)

/-- Only one entry and its route in the kernel are others, and the entry is selected or not. -/
structure Touches (a : Nat) (x : Bool) (n n' : Node) : Prop where
  id : n'.id = n.id
  unicast : n'.unicast = n.unicast
  routes : n'.routes = n.routes
  brk : n'.brk = n.brk
  rib : ∀ b ≠ a, n'.rib b = n.rib b
  kernel : ∀ b ≠ a, n'.kernel b = n.kernel b
  core : (n'.rib a).core = (n.rib a).core
  selected : (n'.rib a).flags.selected = x

theorem Touches.refl (n : Node) (a : Nat) : Touches a (n.rib a).flags.selected n n :=
  ⟨rfl, rfl, rfl, rfl, fun _ _ => rfl, fun _ _ => rfl, rfl, rfl⟩

theorem Touches.trans (h : Touches a x n n1) (h' : Touches a y n1 n') : Touches a y n n' :=
  ⟨h'.id.trans h.id, h'.unicast.trans h.unicast, h'.routes.trans h.routes, h'.brk.trans h.brk,
    fun b hb => (h'.rib b hb).trans (h.rib b hb), fun b hb => (h'.kernel b hb).trans (h.kernel b hb),
    h'.core.trans h.core, h'.selected⟩

theorem setRib_rib (f : Rib → Rib) : (setRib n a f).rib a = f (n.rib a) := update_self ..

theorem setRib_touches (n : Node) (a : Nat) (f : Rib → Rib) (hcore : ∀ rib, (f rib).core = rib.core) :
    Touches a (f (n.rib a)).flags.selected n (setRib n a f) := by
  refine ⟨rfl, rfl, rfl, rfl, fun b hb => update_of_ne hb .., fun _ _ => rfl, ?_, ?_⟩
  · rw [setRib_rib, hcore]
  · rw [setRib_rib]

theorem Touches.withKernel (h : Touches a x n n') (route : Option KernelRoute) :
    Touches a x n { n' with kernel := update n'.kernel a route } :=
  { h with kernel := fun b hb => (update_of_ne hb ..).trans (h.kernel b hb) }

section
variable (h : (n'.rib a).core = (n.rib a).core)
include h

theorem system_of_core : (n'.rib a).systemRoute = (n.rib a).systemRoute := by
  have htype : (n'.rib a).type = (n.rib a).type := congrArg (·.1) h
  rw [Rib.systemRoute, Rib.systemRoute, htype]

theorem discard_of_core : (n'.rib a).discard = (n.rib a).discard := congrArg (·.2.2.2.2.1) h
theorem removed_of_core : (n'.rib a).removed = (n.rib a).removed := congrArg (·.2.2.2.1) h

end

theorem core_setFib (fib : Bool) (rib : Rib) : (rib.setFib fib).core = rib.core := by
  simp only [Rib.core, Rib.setFib, length_map]
  rfl

theorem length_markNexthops : ∀ (room : Nat) (ns : List Nexthop), (markNexthops room ns).length = ns.length
  | _, [] => rfl
  | room, nh :: ns => by
    rw [markNexthops]
    split
    · rw [length_cons, length_cons, length_markNexthops]
    split <;> rw [length_cons, length_cons, length_markNexthops]

section
variable (w n a)

theorem core_marked (rib : Rib) : (rib.marked w).core = rib.core := by
  have hlength : (rib.marked w).nexthop.length = rib.nexthop.length := by
    rw [Rib.marked]
    split
    · rw [length_map]
    · rw [length_markNexthops]
  rw [Rib.core, hlength]
  rfl

theorem core_activeUpdate (top : Nat) (rib : Rib) (set : Bool) :
    (nexthopActiveUpdate w top rib set).core = rib.core := by
  simp only [Rib.core, nexthopActiveUpdate, length_map]
  rfl

theorem activeUpdate_touches (set : Bool) : Touches a (n.rib a).flags.selected n (activeUpdate w n a set) :=
  setRib_touches n a _ fun rib => core_activeUpdate w n.id rib set

theorem setSelected_touches (x : Bool) : Touches a x n (setSelected n a x) :=
  setRib_touches n a (fun rib => { rib with flags := { rib.flags with selected := x } }) fun _ => rfl

theorem ribUninstallKernel_touches : Touches a (n.rib a).flags.selected n (ribUninstallKernel w n a) := by
  have hset : ∀ fib, Touches a (n.rib a).flags.selected n (setRib n a (Rib.setFib fib)) := fun fib =>
    setRib_touches n a _ (core_setFib fib)
  rw [ribUninstallKernel]
  split
  · exact hset true
  split
  · exact (hset false).withKernel none
  · exact hset false

theorem ribInstallKernel_touches : Touches a (n.rib a).flags.selected n (ribInstallKernel w n a) := by
  rw [ribInstallKernel]
  split
  · exact setRib_touches n a _ (core_setFib true)
  split
  · exact setRib_touches n a _ (core_marked w)
  split
  · exact (setRib_touches n a _ (core_marked w)).withKernel _
  · exact setRib_touches n a _ fun rib => (core_setFib false _).trans (core_marked w rib)

end

theorem unlessSystem_touches {f : Node → Nat → Node} (hf : Touches a (n.rib a).flags.selected n (f n a)) :
    Touches a (n.rib a).flags.selected n (unlessSystem n a f) := by
  rw [unlessSystem]
  split
  · exact .refl n a
  · exact hf

/-! ## The kernel -/

/-- A message that deletes the route would go out. -/
def Held (rib : Rib) : Prop := rib.discard = true ∨ ∃ hop ∈ rib.leaves, hop.fib = true

/-- What the kernel holds for an entry, zebra has put there and can delete. -/
def KernelFits (n : Node) (a : Nat) : Prop :=
  n.kernel a ≠ none → (n.rib a).systemRoute = false ∧ n.unicast = true ∧ Held (n.rib a)

theorem limit_pos (h : hop ∈ rib.leaves) : w.limit rib.leaves ≠ 0 := by
  rw [World.limit]
  split
  · exact (length_pos_of_mem h).ne'
  · assumption

theorem take_ne_nil {p : Hop → Bool} (h : hop ∈ rib.leaves) (hp : p hop) :
    (rib.leaves.filter p).take (w.limit rib.leaves) ≠ [] := by
  rw [Ne, take_eq_nil_iff, not_or]
  exact ⟨limit_pos h, ne_nil_of_mem (mem_filter.2 ⟨h, hp⟩)⟩

theorem sendsDelete_of_held (w : World) (h : Held rib) : rib.sendsDelete w = true := by
  rw [Rib.sendsDelete, Bool.or_eq_true]
  refine h.imp id fun ⟨hop, hmem, hfib⟩ => ?_
  simpa [Rib.deleteHops] using take_ne_nil (p := (·.fib)) hmem hfib

theorem uninstalled (w : World) (h : KernelFits n a) : (unlessSystem n a (ribUninstallKernel w)).kernel a = none := by
  by_cases hker : n.kernel a = none
  · rw [unlessSystem, ribUninstallKernel]
    split
    · exact hker
    split
    · exact hker
    split
    · exact update_self ..
    · exact hker
  · obtain ⟨hsys, huni, hheld⟩ := h hker
    rw [unlessSystem, if_neg (by simp [hsys]), ribUninstallKernel, if_neg (by simp [huni]),
      if_pos (sendsDelete_of_held w hheld)]
    exact update_self ..

theorem exists_markHops : ∀ {room : Nat} {hops : List Hop}, room ≠ 0 → (∃ hop ∈ hops, hop.active = true) →
    ∃ hop ∈ (markHops room hops).2, hop.fib = true
  | _, [], _, h => by simp at h
  | room, hop :: hops, hroom, h => by
    rw [markHops]
    by_cases hact : hop.active
    · rw [if_pos ⟨hact, hroom⟩]
      exact ⟨_, mem_cons_self, rfl⟩
    rw [if_neg (fun hboth => hact hboth.1)]
    have hrest : ∃ hop ∈ hops, hop.active = true := by simpa [hact] using h
    obtain ⟨hop', hmem, hfib⟩ := exists_markHops hroom hrest
    exact ⟨hop', mem_cons_of_mem _ hmem, hfib⟩

theorem markHops_room : ∀ {room : Nat} {hops : List Hop}, (∀ hop ∈ hops, hop.active = false) →
    (markHops room hops).1 = room
  | _, [], _ => rfl
  | room, hop :: hops, h => by
    rw [markHops, if_neg (by simp [h hop mem_cons_self])]
    exact markHops_room fun hop' hmem => h hop' (mem_cons_of_mem _ hmem)

/-- Where a next hop is active and there is room, one gets `NEXTHOP_FLAG_FIB`. -/
theorem exists_markNexthops : ∀ {room : Nat} {ns : List Nexthop}, room ≠ 0 →
    (∃ hop ∈ ns.flatMap leaves, hop.active = true) →
    ∃ hop ∈ (markNexthops room ns).flatMap leaves, hop.fib = true
  | _, [], _, h => by simp at h
  | room, nh :: ns, hroom, h => by
    obtain ⟨hop, hmem, hact⟩ := h
    rw [flatMap_cons, mem_append] at hmem
    have hlater : (∃ hop ∈ nh.leaves, hop.active = true) ∨ hop ∈ ns.flatMap leaves := by
      rcases hmem with hmem | hmem
      · exact .inl ⟨hop, hmem, hact⟩
      · exact .inr hmem
    rw [markNexthops]
    by_cases hrec : nh.recursive
    · have hleaves : nh.leaves = nh.resolved := if_pos hrec
      rw [if_pos hrec]
      by_cases hhere : ∃ hop ∈ nh.resolved, hop.active = true
      · obtain ⟨hop', hmem', hfib'⟩ := exists_markHops hroom hhere
        refine ⟨hop', ?_, hfib'⟩
        rw [flatMap_cons, mem_append]
        left
        have hne := ne_nil_of_mem hmem'
        rw [leaves, if_pos (by simpa [recursive] using hne)]
        exact hmem'
      · have hroom' : (markHops room nh.resolved).1 = room := markHops_room (by simpa using hhere)
        rw [hleaves] at hlater
        obtain ⟨hop', hmem', hfib'⟩ := exists_markNexthops hroom ⟨hop, hlater.resolve_left hhere, hact⟩
        refine ⟨hop', ?_, hfib'⟩
        rw [flatMap_cons, mem_append, hroom']
        exact .inr hmem'
    · have hleaves : nh.leaves = [nh.toHop] := if_neg hrec
      rw [if_neg hrec]
      by_cases hhere : nh.active
      · rw [if_pos ⟨hhere, hroom⟩]
        refine ⟨{ nh.toHop with fib := true }, ?_, rfl⟩
        rw [flatMap_cons, mem_append]
        left
        have hnot : ¬recursive { nh with fib := true } = true := hrec
        rw [leaves, if_neg hnot]
        exact mem_singleton.2 rfl
      · rw [if_neg (fun hboth => hhere hboth.1)]
        rw [hleaves] at hlater
        have hrest := hlater.resolve_left (by simpa using hhere)
        obtain ⟨hop', hmem', hfib'⟩ := exists_markNexthops hroom ⟨hop, hrest, hact⟩
        exact ⟨hop', by rw [flatMap_cons, mem_append]; exact .inr hmem', hfib'⟩

theorem held_marked (h : rib.sendsAdd w = true) : Held (rib.marked w) := by
  by_cases hdis : rib.discard
  · exact .inl hdis
  right
  have hadd : rib.addHops w ≠ [] := by simpa [Rib.sendsAdd, hdis] using h
  obtain ⟨hop, hop_mem⟩ := exists_mem_of_ne_nil _ hadd
  obtain ⟨hmem, hact⟩ := mem_filter.1 (mem_of_mem_take hop_mem)
  have hmarked : (rib.marked w).leaves = (markNexthops (w.limit rib.leaves) rib.nexthop).flatMap leaves := by
    rw [Rib.leaves, Rib.marked, if_neg hdis]
  rw [hmarked]
  exact exists_markNexthops (limit_pos hmem) ⟨hop, hmem, hact⟩

section
variable (w : World) (top : Nat)

/-- `rib_install_kernel`, for an entry of which the kernel holds nothing, or a route that discards the packets. -/
theorem installed_fits (hsys : (n.rib a).systemRoute = false)
    (h : n.kernel a ≠ none → n.unicast = true ∧ (n.rib a).discard = true) : KernelFits (ribInstallKernel w n a) a := by
  have htouches := ribInstallKernel_touches w n a
  intro hker
  rw [system_of_core htouches.core, htouches.unicast]
  refine ⟨hsys, ?_⟩
  rw [ribInstallKernel] at hker ⊢
  by_cases huni : n.unicast
  · refine ⟨huni, ?_⟩
    rw [if_neg (by simp [huni])] at hker ⊢
    by_cases hsends : (n.rib a).sendsAdd w
    · rw [if_neg (by simp [hsends])] at hker ⊢
      by_cases hadd : w.kernelAdd
      · rw [if_pos hadd]
        rw [setRib_rib]
        exact held_marked hsends
      · rw [if_neg hadd] at hker ⊢
        rw [setRib_rib]
        exact .inl (h hker).2
    · rw [if_pos (by simp [hsends])] at hker ⊢
      rw [setRib_rib]
      exact .inl (h hker).2
  · rw [if_pos (by simp [huni])] at hker
    exact absurd (h hker).1 huni

/-! ## What the check leaves of the next hops -/

/-- What the table says about a gateway. -/
structure Lookup where
  active : Bool
  ifindex : UInt32
  hops : List Nexthop

/-- The lookup of `nexthop_active_ipv4`. -/
def lookupGate (internal : Bool) (gate : UInt32) : Lookup :=
  match resolvingRib top (w.path gate) with
  | none => ⟨false, 0, []⟩
  | some found =>
    if found.flags.blackhole ∨ found.flags.reject then ⟨false, 0, []⟩
    else if found.type = zebraRouteConnect then ⟨true, (found.nexthop.head?.map (·.ifindex)).getD 0, []⟩
    else if internal then ⟨!(resolvingHops found).isEmpty, 0, resolvingHops found⟩
    else ⟨false, 0, []⟩

variable (rib) (nh : Nexthop)

theorem nexthopActiveIpv4_eq (set : Bool) : nexthopActiveIpv4 w top rib nh set =
      ({ nh with
          ifindex := if nh.type = .ipv4 then (lookupGate w top rib.flags.internal nh.gate).ifindex else nh.ifindex
          resolved := if set then (lookupGate w top rib.flags.internal nh.gate).hops.map (resolvedHop nh.gate)
            else nh.resolved },
        (lookupGate w top rib.flags.internal nh.gate).active) := by
  have hclr : (if set then { (if nh.type = .ipv4 then { nh with ifindex := 0 } else nh) with resolved := [] }
      else if nh.type = .ipv4 then { nh with ifindex := 0 } else nh) =
      { nh with
        ifindex := if nh.type = .ipv4 then 0 else nh.ifindex
        resolved := if set then [] else nh.resolved } := by
    cases set <;> by_cases htype : nh.type = .ipv4 <;> simp [htype]
  rw [nexthopActiveIpv4, hclr, lookupGate]
  cases resolvingRib top (w.path nh.gate) with
  | none => rfl
  | some found =>
    dsimp only
    by_cases h1 : found.flags.blackhole ∨ found.flags.reject
    · rw [if_pos h1, if_pos h1]
      rfl
    rw [if_neg h1, if_neg h1]
    by_cases h2 : found.type = zebraRouteConnect
    · rw [if_pos h2, if_pos h2]
      cases found.nexthop.head? with
      | none => rfl
      | some newhop => by_cases htype : nh.type = .ipv4 <;> simp [htype]
    rw [if_neg h2, if_neg h2]
    by_cases h3 : rib.flags.internal
    · rw [if_pos h3, if_pos h3]
      cases set <;> rfl
    · rw [if_neg h3, if_neg h3]
      rfl

theorem check_eq (set : Bool) : nexthopActiveCheck w top rib nh set =
      { nexthopReachable w top rib nh set with
        active := (nexthopReachable w top rib nh set).active && (rib.systemRoute ||
          !w.denied rib.type (nexthopReachable w top rib nh set).type (nexthopReachable w top rib nh set).gate
            (nexthopReachable w top rib nh set).ifindex) } := by
  rw [nexthopActiveCheck]
  generalize nexthopReachable w top rib nh set = r
  obtain ⟨⟨type, gate, ifindex, ifname, active, fib, onlink⟩, resolved⟩ := r
  cases active <;> cases rib.systemRoute <;> cases w.denied rib.type type gate ifindex <;> simp

/-- A check without `set` keeps what the next hop resolves to, and `NEXTHOP_FLAG_FIB`. -/
theorem check_same :
    (nexthopActiveCheck w top rib nh false).fib = nh.fib ∧
      (nexthopActiveCheck w top rib nh false).resolved = nh.resolved := by
  rw [check_eq]
  obtain ⟨⟨type, gate, ifindex, ifname, active, fib, onlink⟩, resolved⟩ := nh
  cases type <;> simp [nexthopReachable, nexthopActiveIpv4_eq]

theorem check_fib : (nexthopActiveCheck w top rib nh false).leaves.map Hop.fib = nh.leaves.map Hop.fib := by
  obtain ⟨hfib, hres⟩ := check_same rib w top nh
  rw [leaves, leaves, recursive, recursive, hres]
  split
  · rfl
  · exact congrArg ([·]) hfib

variable {rib}

theorem held_checked (h : Held rib) : Held (nexthopActiveUpdate w top rib false) := by
  refine h.imp id fun ⟨hop, hmem, hfib⟩ => ?_
  obtain ⟨nh, hnh, hop_mem⟩ := mem_flatMap.1 hmem
  have htrue : true ∈ (nexthopActiveCheck w top rib nh false).leaves.map Hop.fib := by
    rw [check_fib]
    exact mem_map.2 ⟨hop, hop_mem, hfib⟩
  obtain ⟨hop', hmem', hfib'⟩ := mem_map.1 htrue
  exact ⟨hop', mem_flatMap.2 ⟨_, mem_map.2 ⟨nh, hnh, rfl⟩, hmem'⟩, hfib'⟩

/-! ## After the loop -/

theorem updateFib_touches (n : Node) (a : Nat) : Touches a (n.rib a).flags.selected n (updateFib w n a) := by
  rw [updateFib]
  by_cases hchg : (n.rib a).flags.changed
  · rw [if_pos hchg]
    have h1 := unlessSystem_touches (ribUninstallKernel_touches w n a)
    have h2 := activeUpdate_touches w (unlessSystem n a (ribUninstallKernel w)) a true
    have h3 := unlessSystem_touches (ribInstallKernel_touches w
      (activeUpdate w (unlessSystem n a (ribUninstallKernel w)) a true) a)
    rw [h1.selected] at h2
    rw [h2.selected] at h3
    exact (h1.trans h2).trans h3
  · rw [if_neg hchg]
    split
    · exact .refl n a
    split
    · exact .refl n a
    · exact ribInstallKernel_touches w n a

theorem removeFib_touches (n : Node) (a : Nat) : Touches a false n (removeFib w n a) := by
  have h1 := unlessSystem_touches (ribUninstallKernel_touches w n a)
  have h2 := setSelected_touches (unlessSystem n a (ribUninstallKernel w)) a false
  have h3 := activeUpdate_touches w (setSelected (unlessSystem n a (ribUninstallKernel w)) a false) a true
  rw [h2.selected] at h3
  exact (h1.trans h2).trans h3

theorem addSelect_touches (n : Node) (a : Nat) : Touches a true n (addSelect w n a) := by
  have h1 := activeUpdate_touches w n a true
  have h2 := unlessSystem_touches (ribInstallKernel_touches w (activeUpdate w n a true) a)
  exact (h1.trans h2).trans (setSelected_touches _ a true)

theorem removeFib_kernel (h : KernelFits n a) : (removeFib w n a).kernel a = none := uninstalled w h

theorem unlessSystem_fits (h : n.kernel a = none) : KernelFits (unlessSystem n a (ribInstallKernel w)) a := by
  rw [unlessSystem]
  split_ifs with hsys
  · exact fun hker => absurd h hker
  · exact installed_fits w (by simpa using hsys) fun hker => absurd h hker

end

theorem KernelFits.setSelected (h : KernelFits n a) : KernelFits (setSelected n a x) a := by
  intro hker
  obtain ⟨hsys, huni, hheld⟩ := h hker
  have hrib : (ZebraRib.setSelected n a x).rib a = { n.rib a with flags := { (n.rib a).flags with selected := x } } :=
    setRib_rib _
  rw [hrib]
  exact ⟨hsys, huni, hheld⟩

theorem addSelect_fits (w : World) (h : n.kernel a = none) : KernelFits (addSelect w n a) a := by
  have hupd : (activeUpdate w n a true).kernel a = none := h
  exact (unlessSystem_fits w hupd).setSelected

theorem not_fib_of_any
    (h : ¬((n.rib a).nexthop.any fun nh => nh.fib || (nh.recursive && nh.resolved.any (·.fib))) = true) :
    ∀ hop ∈ (n.rib a).leaves, hop.fib = false := by
  intro hop hmem
  obtain ⟨nh, hnh, hop_mem⟩ := mem_flatMap.1 hmem
  simp only [any_eq_true, Bool.or_eq_true, Bool.and_eq_true, not_exists, not_and, not_or] at h
  obtain ⟨htop, hres⟩ := h nh hnh
  rw [leaves] at hop_mem
  split_ifs at hop_mem with hrec
  · simpa using hres hrec hop hop_mem
  rw [mem_singleton] at hop_mem
  rw [hop_mem]
  simpa using htop

theorem updateFib_fits (w : World) (h : KernelFits n a) : KernelFits (updateFib w n a) a := by
  rw [updateFib]
  by_cases hchg : (n.rib a).flags.changed
  · rw [if_pos hchg]
    have hnone := uninstalled w h
    exact unlessSystem_fits w hnone
  rw [if_neg hchg]
  split
  · exact h
  rename_i hsys
  split_ifs with hnone
  · exact h
  refine installed_fits w (by simpa using hsys) fun hker => ?_
  obtain ⟨-, huni, hheld⟩ := h hker
  refine ⟨huni, hheld.resolve_right ?_⟩
  rintro ⟨hop, hmem, hfib⟩
  rw [not_fib_of_any hnone hop hmem] at hfib
  cases hfib

end Tarpan.ZebraRib
