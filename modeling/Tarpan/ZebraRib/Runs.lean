/-
Runs of a route node: every `rib_process` selects the best entry, provided that no entry comes in as selected, none has
more than 255 next hops, and the kernel has really dropped a route that it is said to have deleted.
-/
import Tarpan.Base.Runs
import Tarpan.ZebraRib.Process

namespace Tarpan.ZebraRib

open Base List Function Bool

variable {w : World} {n n' : Node} {a b : Nat} {rib : Rib}

/-! ## Routes come and go -/

theorem fibOfKernel_flags (rib : Rib) : (fibOfKernel rib).flags = rib.flags ∧
    (fibOfKernel rib).nexthop.length = rib.nexthop.length := by
  rw [fibOfKernel]
  split
  · exact ⟨rfl, length_map ..⟩
  · exact ⟨rfl, rfl⟩

section
variable (h : n.Sound)
include h

/-- An entry is changed in memory; it is not selected by that, and its route in the kernel can still be deleted. -/
theorem Node.Sound.setRib (f : Rib → Rib)
    (hselected : (f (n.rib a)).flags.selected = true → (n.rib a).flags.selected = true)
    (hlength : (f (n.rib a)).nexthop.length = (n.rib a).nexthop.length)
    (hker : n.kernel a ≠ none → (f (n.rib a)).flags.selected = true ∧
      (f (n.rib a)).systemRoute = (n.rib a).systemRoute ∧ Held (f (n.rib a))) : (ZebraRib.setRib n a f).Sound := by
  have hself : (ZebraRib.setRib n a f).rib a = f (n.rib a) := setRib_rib f
  have hother : ∀ b ≠ a, (ZebraRib.setRib n a f).rib b = n.rib b := fun b hb => update_of_ne hb ..
  have hback : ∀ b, ((ZebraRib.setRib n a f).rib b).flags.selected = true → (n.rib b).flags.selected = true := by
    intro b hb
    by_cases hba : b = a
    · rw [hba, hself] at hb
      rw [hba]
      exact hselected hb
    · rwa [hother b hba] at hb
  refine ⟨h.nodup, h.old, fun b hb d hd hb' hd' => h.one b hb d hd (hback b hb') (hback d hd'), fun b hb => ?_,
    fun b hb => ?_, fun b hb => ?_⟩
  · by_cases hba : b = a
    · rw [hba, hself, hlength]
      exact h.few a (hba ▸ hb)
    · rw [hother b hba]
      exact h.few b hb
  · by_cases hba : b = a
    · subst hba
      rw [hself]
      exact ⟨(h.kernel b hb).1, (hker hb).1⟩
    · rw [hother b hba]
      exact h.kernel b hb
  · by_cases hba : b = a
    · subst hba
      obtain ⟨hsys, huni, -⟩ := h.fits b hb
      obtain ⟨-, hsys', hheld⟩ := hker hb
      rw [hself, hsys', hsys]
      exact ⟨rfl, huni, hheld⟩
    · rw [hother b hba]
      exact h.fits b hb

theorem Node.Sound.setRib_same (f : Rib → Rib) (hflags : (f (n.rib a)).flags = (n.rib a).flags)
    (hnh : (f (n.rib a)).nexthop = (n.rib a).nexthop) (htype : (f (n.rib a)).type = (n.rib a).type) :
    (ZebraRib.setRib n a f).Sound := by
  refine h.setRib f (fun hselected => hflags ▸ hselected) (by rw [hnh]) fun hker => ?_
  obtain ⟨-, -, hheld⟩ := h.fits a hker
  refine ⟨hflags ▸ (h.kernel a hker).2, by rw [Rib.systemRoute, Rib.systemRoute, htype], ?_⟩
  rw [Held, Rib.discard, Rib.leaves, hflags, hnh]
  exact hheld

theorem ribDelnode_sound (a : Nat) : (ribDelnode n a).Sound := h.setRib_same _ rfl rfl rfl

section
variable (hselected : rib.flags.selected = false) (hlength : rib.nexthop.length ≤ 255)
include hselected hlength

theorem ribAddnode_sound : (ribAddnode n rib).Sound := by
  have hself : (ribAddnode n rib).rib n.brk = rib := update_self ..
  have hother : ∀ b ∈ n.routes, (ribAddnode n rib).rib b = n.rib b :=
    fun b hb => update_of_ne (h.old b hb).ne ..
  have hnew : ∀ b ∈ n.brk :: n.routes, ((ribAddnode n rib).rib b).flags.selected = true →
      b ∈ n.routes ∧ (n.rib b).flags.selected = true := by
    intro b hb hb'
    rcases mem_cons.1 hb with rfl | hb
    · rw [hself, hselected] at hb'
      cases hb'
    · rw [hother b hb] at hb'
      exact ⟨hb, hb'⟩
  refine ⟨?_, fun b hb => ?_, fun b hb d hd hb' hd' => ?_, fun b hb => ?_, fun b hb => ?_, fun b hb => ?_⟩
  · exact nodup_cons.2 ⟨fun hmem => (h.old _ hmem).false, h.nodup⟩
  · rcases mem_cons.1 hb with rfl | hb
    · exact Nat.lt_succ_self _
    · exact (h.old b hb).trans (Nat.lt_succ_self _)
  · obtain ⟨hb, hb'⟩ := hnew b hb hb'
    obtain ⟨hd, hd'⟩ := hnew d hd hd'
    exact h.one b hb d hd hb' hd'
  · rcases mem_cons.1 hb with rfl | hb
    · rw [hself]
      exact hlength
    · rw [hother b hb]
      exact h.few b hb
  · obtain ⟨hb', hb''⟩ := h.kernel b hb
    rw [hother b hb']
    exact ⟨mem_cons_of_mem _ hb', hb''⟩
  · rw [hother b (h.kernel b hb).1]
    exact h.fits b hb

theorem replaced_sound
    (same : Option Nat) :
    (same.elim (ribAddnode n (fibOfKernel rib)) (ribDelnode (ribAddnode n (fibOfKernel rib)))).Sound := by
  obtain ⟨hflags, hnh⟩ := fibOfKernel_flags rib
  have hadd : (ribAddnode n (fibOfKernel rib)).Sound := ribAddnode_sound h (by rw [hflags, hselected]) (by rwa [hnh])
  cases same with
  | none => exact hadd
  | some a => exact ribDelnode_sound hadd a

end

section
variable (type : Nat) (flags : RibFlags) (hflags : flags.selected = false) (distance : UInt8)
include hflags

theorem ribAddIpv4_sound (gate : Option UInt32) (ifindex table metric : UInt32) :
    (ribAddIpv4 n type flags gate ifindex table metric distance).Sound := by
  rw [ribAddIpv4]
  split
  · cases findSame n type ifindex with
    | none => exact h
    | some a => exact h.setRib_same (a := a) (fun rib => { rib with refcnt := rib.refcnt + 1 }) rfl rfl rfl
  · exact replaced_sound h hflags (by simp) _

theorem ribAddIpv4Multipath_sound (beyond : UInt8) (table metric : UInt32)
    (hops : List (NexthopType × UInt32 × UInt32 × String)) (hhops : hops.length ≤ 255) :
    (ribAddIpv4Multipath n beyond type flags table metric distance hops).Sound :=
  replaced_sound h hflags (by simpa using hhops) _

end

theorem forgetFib_sound (hker : n.kernel a = none) : (forgetFib n a).Sound := by
  refine h.setRib _ ?_ (length_map ..) fun hne => absurd hker hne
  rintro ⟨⟩

theorem ribDeleteIpv4_sound (type : Nat) (gate : Option UInt32) (ifindex : UInt32)
    (hker : type = zebraRouteKernel → findDeleted n type gate ifindex = none →
      ∀ a ∈ n.routes, (n.rib a).removed = false → (n.rib a).flags.selected = true → n.kernel a = none) :
    (ribDeleteIpv4 n type gate ifindex).Sound := by
  rw [ribDeleteIpv4]
  cases hfind : findDeleted n type gate ifindex with
  | some a =>
    dsimp only
    split
    · exact h.setRib_same _ rfl rfl rfl
    · exact ribDelnode_sound h a
  | none =>
    dsimp only
    split_ifs with htype
    · cases hfib : findFib n with
      | none => exact h
      | some a =>
        have hmem : a ∈ n.routes := mem_reverse.1 (mem_of_find?_eq_some hfib)
        have hfound := find?_some hfib
        simp only [and_eq_true, not_eq_true'] at hfound
        have hnone := hker htype hfind a hmem hfound.1 hfound.2
        exact forgetFib_sound h hnone
    · exact h

end

/-! ## Runs -/

/-- No entry comes in as selected or with more than 255 next hops; and where a route of the kernel is deleted that is
not among the entries, the kernel does not hold the selected route any more. -/
def Op.Keeps (s : Option Node) : Op → Prop
  | .add _ flags _ _ _ _ _ => flags.selected = false
  | .addMultipath _ _ flags _ _ _ hops => flags.selected = false ∧ hops.length ≤ 255
  | .delete type gate ifindex => ∀ n ∈ s, type = zebraRouteKernel → findDeleted n type gate ifindex = none →
      ∀ a ∈ n.routes, (n.rib a).removed = false → (n.rib a).flags.selected = true → n.kernel a = none
  | .kernelDrops _ => True
  | .process _ => True

theorem sound_step (op : Op) (h : n.Sound) (hop : op.Keeps (some n)) : ∃ n', op.step (some n) = some n' ∧ n'.Sound := by
  cases op with
  | add type flags gate ifindex table metric distance => exact ⟨_, rfl, ribAddIpv4_sound h type flags hop ..⟩
  | addMultipath beyond type flags table metric distance hops =>
    exact ⟨_, rfl, ribAddIpv4Multipath_sound h type flags hop.1 distance beyond table metric hops hop.2⟩
  | delete type gate ifindex => exact ⟨_, rfl, ribDeleteIpv4_sound h type gate ifindex (hop n rfl)⟩
  | kernelDrops a =>
    have hback : ∀ b, update n.kernel a none b ≠ none → n.kernel b ≠ none := by
      intro b hb
      by_cases hba : b = a
      · rw [hba, update_self] at hb
        exact absurd rfl hb
      · rwa [update_of_ne hba] at hb
    exact ⟨_, rfl, h.nodup, h.old, h.one, h.few, fun b hb => h.kernel b (hback b hb), fun b hb => h.fits b (hback b hb)⟩
  | process w =>
    obtain ⟨n', hproc, -, hsnd⟩ := ribProcess_spec h w
    exact ⟨n', hproc, hsnd⟩

theorem sound_empty (id : Nat) (unicast : Bool) (rib : Nat → Rib) : (emptyNode id unicast rib).Sound := by
  refine ⟨?_, ?_, ?_, ?_, ?_, ?_⟩
  · exact nodup_nil
  · simp [emptyNode]
  · simp [emptyNode, OneSelected]
  · simp [emptyNode]
  · simp [emptyNode]
  · exact fun _ => fits_of_none rfl

theorem always_sound (id : Nat) (unicast : Bool) (rib : Nat → Rib) {ops : List Op}
    (hmeets : Meets Op.step (fun s op => op.Keeps s) ops (some (emptyNode id unicast rib))) :
    Always Op.step (fun s => ∃ n, s = some n ∧ n.Sound) ops (some (emptyNode id unicast rib)) := by
  refine always_of_meets ?_ ⟨_, rfl, sound_empty id unicast rib⟩ hmeets
  rintro _ op ⟨n, rfl, hsnd⟩ hop
  exact sound_step op hsnd hop

/-- `rib_process` fails exactly if two entries are selected. -/
theorem ribProcess_eq_none (w : World) (h : n.routes.Nodup) : ribProcess w n = none ↔ ¬OneSelected n n.routes := by
  rcases scan_all w h with ⟨hnone, hnot⟩ | ⟨⟨s, hs, -⟩, hone⟩
  · exact iff_of_true (by rw [ribProcess, hnone]; rfl) hnot
  · exact iff_of_false (by rw [ribProcess, hs]; simp) (not_not.2 hone)

/-- The node is there, and whatever the rest of the system looks like, `rib_process` selects what it should. -/
def ProcessesRight (s : Option Node) : Prop := ∃ n, s = some n ∧ ∀ w, ∃ n', ribProcess w n = some n' ∧ Selects w n n'

/-- In every state of a run whose steps meet the condition, `rib_process` selects the best entry. Its assertion fails
exactly if two entries are selected. -/
theorem ribProcess_runs (id : Nat) (unicast : Bool) (rib : Nat → Rib) (ops : List Op) :
    (Meets Op.step (fun s op => op.Keeps s) ops (some (emptyNode id unicast rib)) →
      Always Op.step ProcessesRight ops (some (emptyNode id unicast rib))) ∧
    ∀ (w : World) (n : Node), n.routes.Nodup → (ribProcess w n = none ↔ ¬OneSelected n n.routes) := by
  constructor
  · intro hmeets
    refine (always_sound id unicast rib hmeets).mono ?_
    rintro _ ⟨n, rfl, hsnd⟩
    refine ⟨n, rfl, fun w => ?_⟩
    obtain ⟨n', hproc, hselects, -⟩ := ribProcess_spec hsnd w
    exact ⟨n', hproc, hselects⟩
  · exact fun w n h => ribProcess_eq_none w h

/-- All interfaces are up, there are no other routes, and the kernel takes new ones. -/
def sampleWorld : World := ⟨fun _ => true, fun _ => none, fun _ => [], fun _ _ _ _ => false, 1, true⟩

def sampleNode : Option Node := some (emptyNode 0 true fun _ => { type := 0 })

/-- Two clients send a static route by interface 2 and one of OSPF by interface 3. The static one is selected, deleted,
and the other one takes its place. -/
def staticAndOspf : List Op :=
  [.addMultipath 0 3 {} 0 0 0 [(.ifindex, 0, 2, "")], .addMultipath 0 6 {} 0 0 0 [(.ifindex, 0, 3, "")],
    .process sampleWorld, .delete 3 none 2, .process sampleWorld]

theorem ribProcess_runs_static : Always Op.step ProcessesRight staticAndOspf sampleNode ∧
    ((staticAndOspf.take 3).foldl Op.step sampleNode).map (fun n => n.routes.filter (n.rib · |>.flags.selected)) =
      some [0] ∧
    (staticAndOspf.foldl Op.step sampleNode).map (fun n => n.routes.filter (n.rib · |>.flags.selected)) = some [1] :=
  ⟨(ribProcess_runs _ _ _ _).1
    ⟨⟨rfl, by decide⟩, ⟨rfl, by decide⟩, trivial, fun _ _ htype => absurd htype (by decide), trivial, trivial⟩,
    by decide, by decide⟩

/-- The flag `ZEBRA_FLAG_SELECTED` in a message. -/
def selectedFlag : RibFlags := { selected := true }

/-- Two clients send routes of different types, each with the flag of a selected route. -/
def bothSelected : List Op :=
  [.addMultipath 0 3 selectedFlag 0 0 0 [(.ipv4, 0x0a000001, 0, "")],
    .addMultipath 0 6 selectedFlag 0 0 0 [(.ipv4, 0x0a000002, 0, "")]]

theorem ribProcess_runs_flagged : ¬Always Op.step ProcessesRight bothSelected sampleNode := by
  rintro ⟨-, -, n, hn, hproc⟩
  obtain ⟨n', hn', -⟩ := hproc sampleWorld
  have hfails : ∀ n ∈ bothSelected.foldl Op.step sampleNode, (ribProcess sampleWorld n).isNone := by
    decide
  have hnone := hfails n hn
  rw [hn'] at hnone
  cases hnone

end Tarpan.ZebraRib
