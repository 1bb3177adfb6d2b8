/-
The lists of the damping records. Every record is in the list that the flag of its path tells, and the links of the
lists agree. A record that is taken out of its list, and put in the list that the flag tells then or freed, leaves it
so.
-/
import Tarpan.Base.LinkedList
import Tarpan.Bgpd.Rib.Sound

namespace Tarpan.Bgpd

open Base Function Option

section Lists
variable {α : Type} {env : RibEnv α} {s s' s'' s1 : Rib α} {a b : Nat} {rn : RibNode} {ri ri' : BgpPath α}
  {bdi bdi' : DampInfo} {slot : Option Nat}

/-- The damping lists as lists in memory. -/
def Rib.dampLists (s : Rib α) : Lists (Option Nat) Nat where
  head := s.dampHead
  next b := (s.damp.info b).bind (·.next)
  prev b := (s.damp.info b).bind (·.prev)

def Rib.record (s : Rib α) (b : Nat) : Option (Nat × RibNode × Int) :=
  (s.damp.info b).map fun bdi => (bdi.binfo, bdi.rn, bdi.index)

/-- What places a record. -/
def DampInfo.place (bdi : DampInfo) : Option Nat × Option Nat × Nat × RibNode × Int :=
  (bdi.next, bdi.prev, bdi.binfo, bdi.rn, bdi.index)

def DampInfo.core (bdi : DampInfo) : DampInfo := { bdi with next := none, prev := none }

namespace Rib

/-- Nothing but the records in `B` and the links and the heads of the damping lists is changed. -/
def Relisted (B : Nat → Prop) (s s' : Rib α) : Prop :=
  ∃ damp, s' = { s with damp } ∧ ∀ c, ¬ B c → (damp.info c).map (·.core) = (s.damp.info c).map (·.core)

def Relinked : Rib α → Rib α → Prop := Relisted fun _ => False

section
variable {B : Nat → Prop} (h : s.Relisted B s')
include h

theorem Relisted.trans (h' : s'.Relisted B s'') : s.Relisted B s'' := by
  obtain ⟨d, rfl, hcore⟩ := h
  obtain ⟨d', rfl, hcore'⟩ := h'
  exact ⟨d', rfl, fun c hc => (hcore' c hc).trans (hcore c hc)⟩

theorem Relisted.path : s'.path = s.path := by
  obtain ⟨d, rfl, -⟩ := h
  rfl

theorem Relisted.info : s'.info = s.info := by
  obtain ⟨d, rfl, -⟩ := h
  rfl

theorem Relisted.brk : s'.brk = s.brk := by
  obtain ⟨d, rfl, -⟩ := h
  rfl

theorem Relisted.core {c : Nat} (hc : ¬ B c) : (s'.damp.info c).map (·.core) = (s.damp.info c).map (·.core) := by
  obtain ⟨d, rfl, hcore⟩ := h
  exact hcore c hc

end

theorem Relinked.isSome (h : s.Relinked s') (b : Nat) : (s'.damp.info b).isSome = (s.damp.info b).isSome := by
  have := congrArg Option.isSome (h.core (c := b) id)
  rwa [isSome_map, isSome_map] at this

theorem relinked_putDamp (h : s.damp.info b = some bdi) (next prev : Option Nat) :
    s.Relinked (s.putDamp b { bdi with next, prev }) := by
  refine ⟨_, rfl, fun c _ => ?_⟩
  show (update s.damp.info b (some { bdi with next, prev }) c).map _ = _
  rw [update_apply]
  split_ifs with hc
  · rw [hc, h]
    rfl
  · rfl

section
variable (s : Rib α) (slot head : Option Nat)

theorem relinked_putDampHead : s.Relinked (s.putDampHead slot head) := by
  cases slot <;> exact ⟨_, rfl, fun _ _ => rfl⟩

theorem dampHead_putDampHead : (s.putDampHead slot head).dampHead = update s.dampHead slot head := by
  funext k
  rw [update_apply]
  cases slot with
  | none => cases k <;> rfl
  | some i =>
    cases k with
    | none => rfl
    | some j =>
      show update s.damp.reuseList i head j = _
      rw [update_apply]
      by_cases hij : j = i
      · rw [if_pos hij, if_pos (by rw [hij])]
      · rw [if_neg hij, if_neg (by rintro ⟨⟩; exact hij rfl)]
        rfl

theorem info_putDampHead : (s.putDampHead slot head).damp.info = s.damp.info := by
  cases slot <;> rfl

end

theorem info_putDamp (s : Rib α) (b : Nat) (bdi : DampInfo) (c : Nat) :
    (s.putDamp b bdi).damp.info c = if c = b then some bdi else s.damp.info c := update_apply ..

theorem dampHead_putDamp (s : Rib α) (b : Nat) (bdi : DampInfo) : (s.putDamp b bdi).dampHead = s.dampHead := by
  funext k
  cases k <;> rfl

theorem links_of_info (h : s.damp.info b = some bdi) :
    s.dampLists.next b = bdi.next ∧ s.dampLists.prev b = bdi.prev := by
  simp [dampLists, h]

theorem ends_putPrev {c prev : Option Nat} (h : ∀ n, c = some n → (s.damp.info n).isSome) :
    Ends (s.putPrev c prev) fun s' => s.Relinked s' ∧ s'.dampHead = s.dampHead ∧
      ∀ x, s'.damp.info x = if c = some x then (s.damp.info x).map ({ · with prev }) else s.damp.info x := by
  cases c with
  | none =>
    refine .some ⟨⟨s.damp, rfl, fun _ _ => rfl⟩, rfl, fun x => ?_⟩
    rw [if_neg nofun]
  | some n =>
    obtain ⟨bdi, hbdi⟩ := isSome_iff_exists.1 (h n rfl)
    unfold putPrev modifyDamp
    dsimp only
    rw [hbdi]
    refine .some ⟨relinked_putDamp hbdi bdi.next prev, dampHead_putDamp .., fun x => ?_⟩
    rw [info_putDamp]
    by_cases hx : x = n
    · rw [if_pos hx, if_pos (by rw [hx]), hx, hbdi]
      rfl
    · rw [if_neg hx, if_neg (by rintro ⟨⟩; exact hx rfl)]

theorem ends_bgpInfoLink (hb : (s.damp.info b).isSome)
    (hhead : ∀ n, s.dampHead slot = some n → (s.damp.info n).isSome) :
    Ends (s.bgpInfoLink slot b) fun s' => s.Relinked s' ∧ s'.dampLists = s.dampLists.push slot b := by
  obtain ⟨bdi, hbdi⟩ := isSome_iff_exists.1 hb
  unfold bgpInfoLink modifyDamp
  refine .next (by rw [hbdi, map_some]) ?_
  have hlink := relinked_putDamp hbdi (s.dampHead slot) none
  refine (ends_putPrev fun n hn => ?_).bind fun s1 h1 => ?_
  · rw [hlink.isSome]
    exact hhead n hn
  obtain ⟨h1, hhead1, hinfo1⟩ := h1
  refine .some ⟨(hlink.trans h1).trans (relinked_putDampHead ..), ?_⟩
  refine Lists.ext ?_ ?_ ?_
  · show (s1.putDampHead slot (some b)).dampHead = _
    rw [dampHead_putDampHead, hhead1]
    rfl
  · funext x
    show ((s1.putDampHead slot (some b)).damp.info x).bind _ = update s.dampLists.next b (s.dampHead slot) x
    rw [info_putDampHead, hinfo1, info_putDamp, update_apply]
    by_cases hx : x = b
    · split <;> rfl
    rw [if_neg hx, if_neg hx]
    show _ = (s.damp.info x).bind _
    split
    · cases s.damp.info x <;> rfl
    · rfl
  · funext x
    show ((s1.putDampHead slot (some b)).damp.info x).bind _ =
      if s.dampHead slot = some x then some b else if x = b then none else (s.damp.info x).bind (·.prev)
    rw [info_putDampHead, hinfo1, info_putDamp]
    by_cases hx : x = b
    · split <;> rfl
    split_ifs with hh
    · obtain ⟨n, hn⟩ := isSome_iff_exists.1 (hhead x hh)
      rw [hn]
      rfl
    · rfl

theorem ends_bgpInfoUnlink (hb : s.damp.info b = some bdi)
    (hnext : ∀ n, bdi.next = some n → n ≠ b ∧ (s.damp.info n).isSome)
    (hprev : ∀ n, bdi.prev = some n → (s.damp.info n).isSome) :
    Ends (s.bgpInfoUnlink slot b) fun s' => s.Relinked s' ∧ s'.dampLists = s.dampLists.remove slot b := by
  obtain ⟨hlnext, hlprev⟩ := links_of_info hb
  refine .next hb ((ends_putPrev fun n hn => (hnext n hn).2).bind fun s1 h1 => ?_)
  obtain ⟨h1, hhead1, hinfo1⟩ := h1
  have hb1 : s1.damp.info b = some bdi := by
    rw [hinfo1, if_neg fun h => (hnext b h).1 rfl, hb]
  refine .next hb1 ?_
  have hnext1 : ∀ x, (s1.damp.info x).bind (·.next) = (s.damp.info x).bind (·.next) := by
    intro x
    rw [hinfo1]
    split
    · cases s.damp.info x <;> rfl
    · rfl
  have hprev1 : ∀ x, (s1.damp.info x).bind (·.prev) =
      if bdi.next = some x then bdi.prev else (s.damp.info x).bind (·.prev) := by
    intro x
    rw [hinfo1]
    split_ifs with hx
    · obtain ⟨n, hn⟩ := isSome_iff_exists.1 (hnext x hx).2
      rw [hn]
      rfl
    · rfl
  cases hp : bdi.prev with
  | none =>
    refine .some ⟨h1.trans (relinked_putDampHead ..), Lists.ext ?_ ?_ ?_⟩
    · funext k
      show (s1.putDampHead slot bdi.next).dampHead k = if k = slot ∧ s.dampLists.prev b = none then _ else _
      rw [dampHead_putDampHead, hhead1, update_apply, hlprev, hp, hlnext]
      by_cases hk : k = slot
      · rw [if_pos hk, if_pos ⟨hk, rfl⟩]
      · rw [if_neg hk, if_neg fun h => hk h.1]
        rfl
    · funext x
      show ((s1.putDampHead slot bdi.next).damp.info x).bind _ = if s.dampLists.prev b = some x then _ else _
      rw [info_putDampHead, hnext1, hlprev, hp]
      rfl
    · funext x
      show ((s1.putDampHead slot bdi.next).damp.info x).bind _ = if s.dampLists.next b = some x then _ else _
      rw [info_putDampHead, hprev1, hlnext, hlprev]
      rfl
  | some c =>
    dsimp only
    obtain ⟨bdc, hbdc⟩ := isSome_iff_exists.1 (hprev c hp)
    have hsome : (s1.damp.info c).isSome := by
      rw [h1.isSome, hbdc]
      rfl
    obtain ⟨bdc1, hbdc1⟩ := isSome_iff_exists.1 hsome
    unfold modifyDamp
    rw [hbdc1]
    refine .some ⟨h1.trans (relinked_putDamp hbdc1 bdi.next bdc1.prev), Lists.ext ?_ ?_ ?_⟩
    · funext k
      show (s1.putDamp c _).dampHead k = if k = slot ∧ s.dampLists.prev b = none then _ else _
      rw [dampHead_putDamp, hhead1, hlprev, hp, if_neg (by rintro ⟨-, ⟨⟩⟩)]
      rfl
    · funext x
      show ((s1.putDamp c _).damp.info x).bind _ = if s.dampLists.prev b = some x then _ else _
      rw [info_putDamp, hlprev, hp, hlnext]
      by_cases hx : x = c
      · rw [if_pos hx, if_pos (by rw [hx])]
        rfl
      · rw [if_neg hx, if_neg (by rintro ⟨⟩; exact hx rfl), hnext1]
        rfl
    · funext x
      show ((s1.putDamp c _).damp.info x).bind _ = if s.dampLists.next b = some x then _ else _
      rw [info_putDamp, hlnext, hlprev, hp]
      by_cases hx : x = c
      · have := hprev1 c
        rw [hbdc1, hp] at this
        rw [if_pos hx, hx]
        exact this
      · have := hprev1 x
        rw [hp] at this
        rw [if_neg hx]
        exact this

/-! ## Changes for one record -/

/-- Nothing changes but the penalties and the times of records. -/
structure Mild (s s' : Rib α) : Prop extends Steady (fun _ => False) s s' where
  lists : s'.dampLists = s.dampLists
  record : s'.record = s.record

/-- Nothing of the damping changes but that `a` is damped or not. -/
structure Flips (a : Nat) (s s' : Rib α) : Prop extends Steady (· = a) s s' where
  lists : s'.dampLists = s.dampLists
  record : s'.record = s.record
  kept : ∀ {ri ri'}, s.path a = some ri → s'.path a = some ri' → ri'.dampInfo = ri.dampInfo

/-- Nothing of the damping changes but for the path `a` and the record `b`. -/
structure Aside (a b : Nat) (s s' : Rib α) : Prop extends Steady (· = a) s s' where
  record : ∀ {c}, c ≠ b → s'.record c = s.record c

theorem Quiet.mild (h : s.Quiet s') : s.Mild s' := by
  refine { h with lists := ?_, record := ?_ }
  · have hhead : s'.dampHead = s.dampHead := by
      funext k
      cases k <;> simp only [dampHead, h.damp]
    unfold dampLists
    rw [hhead, h.damp]
  · funext b
    unfold record
    rw [h.damp]

theorem Mild.flips (h : s.Mild s') (a : Nat) : s.Flips a s' :=
  { h.toSteady.all, h with kept := fun hri hri' => (h.same id hri hri').1 }

theorem Flips.aside (h : s.Flips a s') (b : Nat) : s.Aside a b s' := { h with record := fun _ => by rw [h.record] }
theorem Mild.aside (h : s.Mild s') (a b : Nat) : s.Aside a b s' := (h.flips a).aside b
theorem Flips.refl (s : Rib α) (a : Nat) : s.Flips a s := (Quiet.refl s).mild.flips a
theorem Aside.refl (s : Rib α) (a b : Nat) : s.Aside a b s := (Quiet.refl s).mild.aside a b

theorem Aside.trans (h : s.Aside a b s') (h' : s'.Aside a b s'') : s.Aside a b s'' :=
  ⟨h.toSteady.trans h'.toSteady, fun hc => (h'.record hc).trans (h.record hc)⟩

theorem Flips.trans (h : s.Flips a s') (h' : s'.Flips a s'') : s.Flips a s'' := by
  refine ⟨h.toSteady.trans h'.toSteady, h'.lists.trans h.lists, h'.record.trans h.record, ?_⟩
  intro ri ri'' hri hri''
  obtain ⟨ri', hri', -⟩ := h.path hri
  exact (h'.kept hri' hri'').trans (h.kept hri hri')

theorem Mild.trans (h : s.Mild s') (h' : s'.Mild s'') : s.Mild s'' :=
  ⟨h.toSteady.trans h'.toSteady, h'.lists.trans h.lists, h'.record.trans h.record⟩

section
variable (h : s.path a = some ri)
include h

section
variable (hputs : s.Puts a ri' s') (hrn : ri'.rn = ri.rn)
include hputs hrn

theorem Puts.aside (b : Nat) : s.Aside a b s' := by
  obtain ⟨pcount, rfl⟩ := hputs
  exact ⟨Steady.of_path (A := (· = a)) h hrn (absurd rfl) pcount, fun _ => rfl⟩

theorem Puts.flips (hdamp : ri'.dampInfo = ri.dampInfo) : s.Flips a s' := by
  have hself := hputs.path_self
  obtain ⟨pcount, rfl⟩ := hputs
  refine ⟨Steady.of_path (A := (· = a)) h hrn (absurd rfl) pcount, rfl, rfl, ?_⟩
  intro rc rc' hrc hrc'
  rw [h] at hrc
  rw [hself] at hrc'
  cases hrc
  cases hrc'
  exact hdamp

end

theorem flips_bgpInfoPutFlags {mask : List PathFlag} {v : Bool} :
    Ends (bgpInfoPutFlags env s a mask v) fun s' => s.Flips a s' ∧ s'.path a = some (env.flagged ri mask v) := by
  refine (ends_bgpInfoPutFlags h).mono fun s' hs' => ?_
  exact ⟨hs'.flips h (env.flagged_rn ri) (env.flagged_dampInfo ri), hs'.path_self⟩

end

theorem Relinked.relisted (h : s.Relinked s') (b : Nat) : s.Relisted (· = b) s' := by
  obtain ⟨d, rfl, hcore⟩ := h
  exact ⟨d, rfl, fun c _ => hcore c id⟩

theorem relisted_putDamp (s : Rib α) (b : Nat) (bdi : DampInfo) : s.Relisted (· = b) (s.putDamp b bdi) := by
  refine ⟨_, rfl, fun c hc => ?_⟩
  show (update s.damp.info b (some bdi) c).map _ = _
  rw [update_of_ne hc]

theorem record_eq_core (s : Rib α) (b : Nat) :
    s.record b = ((s.damp.info b).map (·.core)).map fun bdi => (bdi.binfo, bdi.rn, bdi.index) := by
  rw [map_map]
  rfl

theorem Relisted.aside (h : s.Relisted (· = b) s') (a : Nat) : s.Aside a b s' := by
  obtain ⟨d, rfl, hcore⟩ := h
  exact { Aside.refl s a b with
    record := fun hc => by
      rw [record_eq_core, record_eq_core]
      rw [hcore _ hc] }

theorem Relinked.record (h : s.Relinked s') : s'.record = s.record := by
  funext c
  rw [record_eq_core, record_eq_core, h.core id]

/-! ## The invariant -/

/-- The list of a record: the reuse list of its index where its path is damped. -/
def dampSlot (index : Int) (damped : Bool) : Option Nat := if damped then some index.toNat else none

/-- A record is in its list, and the index of a reuse list is one. -/
def Placed (cfg : DampConfig) (l : Option Nat → List Nat) (b : Nat) (index : Int) (damped : Bool) : Prop :=
  b ∈ l (dampSlot index damped) ∧ (damped → ∃ i < cfg.reuseListSize, index = (i : Int))

/-- The record `b`: it is for a path, and in the list that the flag of its path tells unless it is in `pend`. -/
structure RecordOk (cfg : DampConfig) (pend : List Nat) (l : Option Nat → List Nat) (s : Rib α) (b : Nat) : Prop where
  mem : ∀ {k}, b ∈ l k → (s.record b).isSome
  owner : ∀ {r}, s.record b = some r → b < s.brk ∧ ∃ ri, s.path r.1 = some ri ∧ ri.dampInfo = some b ∧ ri.rn = r.2.1
  placed : ∀ {r ri}, s.record b = some r → s.path r.1 = some ri → b ∉ pend → Placed cfg l b r.2.2 (ri.flags .damped)

/-- The path `a`: its record is for it, and it has one if it is damped. -/
structure PathOk (s : Rib α) (a : Nat) : Prop where
  has : ∀ {ri b}, s.path a = some ri → ri.dampInfo = some b → ∃ r, s.record b = some r ∧ r.1 = a
  damped : ∀ {ri}, s.path a = some ri → ri.flags .damped → ri.dampInfo.isSome

/-- The links are those of the lists `l`, the records and the paths they are for refer to each other, and every record
but those in `pend` is in the list that the flag of its path tells. -/
structure DampOk (cfg : DampConfig) (pend : List Nat) (l : Option Nat → List Nat) (s : Rib α) : Prop where
  holds : s.dampLists.Holds l
  records : ∀ b, s.RecordOk cfg pend l b
  paths : ∀ a, s.PathOk a

variable {cfg : DampConfig} {pend pend' : List Nat} {l l' : Option Nat → List Nat}

section
variable (h : s.DampOk cfg pend l)
include h

theorem DampOk.mem {k : Option Nat} : b ∈ l k → (s.record b).isSome := (h.records b).mem

theorem DampOk.owner {r : Nat × RibNode × Int} (hr : s.record b = some r) :
    b < s.brk ∧ ∃ ri, s.path r.1 = some ri ∧ ri.dampInfo = some b ∧ ri.rn = r.2.1 := (h.records b).owner hr

theorem DampOk.placed {r : Nat × RibNode × Int} (hr : s.record b = some r) (hri : s.path r.1 = some ri)
    (hb : b ∉ pend) :
    Placed cfg l b r.2.2 (ri.flags .damped) := (h.records b).placed hr hri hb

theorem DampOk.has (hri : s.path a = some ri) (hb : ri.dampInfo = some b) : ∃ r, s.record b = some r ∧ r.1 = a :=
  (h.paths a).has hri hb

theorem DampOk.damped (hri : s.path a = some ri) (hd : ri.flags .damped) : ri.dampInfo.isSome :=
  (h.paths a).damped hri hd

end

/-- A path that has a record or is damped is an old one where new ones do not. -/
theorem path_of_used
    (hunused : ∀ {ri'}, s'.path a = some ri' → s.path a = none → ri'.dampInfo = none ∧ ri'.flags .damped = false)
    (hri' : s'.path a = some ri') (hused : ri'.dampInfo ≠ none ∨ ri'.flags .damped = true) :
    ∃ ri, s.path a = some ri := by
  cases hri : s.path a with
  | some ri => exact ⟨ri, rfl⟩
  | none =>
    have := hunused hri' hri
    rw [this.1, this.2] at hused
    simp at hused

section Steady
variable {P : Nat → Prop} (hst : Steady P s s')
include hst

/-- A record stays in order where the path it is for is not one of those that change. -/
theorem RecordOk.steady (h : s.RecordOk cfg pend l b) (hrecord : s'.record b = s.record b)
    (hmem : ∀ {k}, b ∈ l' k ↔ b ∈ l k) (hpend : b ∉ pend' → b ∉ pend) (hapart : ∀ {r}, s.record b = some r → ¬ P r.1) :
    s'.RecordOk cfg pend' l' b := by
  refine ⟨?_, ?_, ?_⟩
  · intro k hb
    rw [hrecord]
    exact h.mem (hmem.1 hb)
  · intro r hr
    rw [hrecord] at hr
    obtain ⟨hlt, ri, hri, hdamp, hrn⟩ := h.owner hr
    obtain ⟨ri', hri', hrn'⟩ := hst.path hri
    exact ⟨hlt.trans_le hst.brk, ri', hri', (hst.same (hapart hr) hri hri').1.trans hdamp, hrn'.trans hrn⟩
  · intro r ri' hr hri' hb
    rw [hrecord] at hr
    obtain ⟨-, ri, hri, -⟩ := h.owner hr
    rw [(hst.same (hapart hr) hri hri').2]
    obtain ⟨hin, hindex⟩ := h.placed hr hri (hpend hb)
    exact ⟨hmem.2 hin, hindex⟩

/-- So does a path that does not change, and whose record stays. -/
theorem PathOk.steady (h : s.PathOk a) (ha : ¬ P a)
    (hrecord : ∀ {ri b}, s.path a = some ri → ri.dampInfo = some b → s'.record b = s.record b) : s'.PathOk a := by
  refine ⟨?_, ?_⟩
  · intro ri' b hri' hb
    obtain ⟨ri, hri⟩ := path_of_used (hst.unused ha) hri' (.inl (by rw [hb]; rintro ⟨⟩))
    have hb0 := (hst.same ha hri hri').1.symm.trans hb
    rw [hrecord hri hb0]
    exact h.has hri hb0
  · intro ri' hri' hd
    obtain ⟨ri, hri⟩ := path_of_used (hst.unused ha) hri' (.inr hd)
    rw [(hst.same ha hri hri').1]
    exact h.damped hri ((hst.same ha hri hri').2.symm.trans hd)

end Steady

theorem DampOk.mild (h : s.DampOk cfg pend l) (hq : s.Mild s') : s'.DampOk cfg pend l := by
  refine ⟨?_, fun b => ?_, fun a => ?_⟩
  · rw [hq.lists]
    exact h.holds
  · exact (h.records b).steady hq.toSteady (by rw [hq.record]) Iff.rfl id fun _ => id
  · exact (h.paths a).steady hq.toSteady id fun _ _ => by rw [hq.record]

/-- The record `b` of the path `a` is in its list again or waits, or it is gone. -/
def Settled (cfg : DampConfig) (pend : List Nat) (l : Option Nat → List Nat) (a b : Nat) (rn : RibNode)
    (ri : BgpPath α) (s : Rib α) : Prop :=
  (∃ i, s.record b = some (a, rn, i) ∧ b < s.brk ∧ ri.dampInfo = some b ∧
      (b ∉ pend → Placed cfg l b i (ri.flags .damped))) ∨
    (s.record b = none ∧ ri.dampInfo = none ∧ ri.flags .damped = false ∧ ∀ k, b ∉ l k)

section
variable (hri : s.path a = some ri) (hb : Settled cfg pend l a b ri.rn ri s)
include hri hb

theorem Settled.recordOk : s.RecordOk cfg pend l b := by
  rcases hb with ⟨i, hrec, hlt, hdamp, hplaced⟩ | ⟨hnone, -, -, hnot⟩
  · refine ⟨fun _ => by rw [hrec]; rfl, ?_, ?_⟩
    · intro r hr
      rw [hrec] at hr
      cases hr
      exact ⟨hlt, ri, hri, hdamp, rfl⟩
    · intro r ri' hr hri' hb
      rw [hrec] at hr
      cases hr
      rw [hri] at hri'
      cases hri'
      exact hplaced hb
  · refine ⟨fun hb => absurd hb (hnot _), ?_, ?_⟩
    · intro r hr
      rw [hnone] at hr
      cases hr
    · intro r ri' hr
      rw [hnone] at hr
      cases hr

theorem Settled.pathOk : s.PathOk a := by
  refine ⟨?_, ?_⟩
  · intro ri' c hri' hc
    rw [hri] at hri'
    cases hri'
    rcases hb with ⟨i, hrec, -, hdamp, -⟩ | ⟨-, hnone, -⟩
    · rw [hdamp] at hc
      cases hc
      exact ⟨_, hrec, rfl⟩
    · rw [hnone] at hc
      cases hc
  · intro ri' hri' hd
    rw [hri] at hri'
    cases hri'
    rcases hb with ⟨i, -, -, hdamp, -⟩ | ⟨-, -, hnot, -⟩
    · rw [hdamp]
      rfl
    · rw [hnot] at hd
      cases hd

end

section
variable (h : s.DampOk cfg pend l) (hri : s.path a = some ri)
  (hb : ri.dampInfo = some b ∨ ri.dampInfo = none ∧ s.record b = none)
include h hri hb

/-- Another record is for another path. -/
theorem DampOk.owner_ne {c : Nat} {r : Nat × RibNode × Int} (hc : c ≠ b) (hr : s.record c = some r) : r.1 ≠ a := by
  rintro rfl
  obtain ⟨-, ri1, hri1, hdamp, -⟩ := h.owner hr
  rw [hri] at hri1
  cases hri1
  rcases hb with hb | ⟨hb, -⟩
  · rw [hb] at hdamp
    cases hdamp
    exact hc rfl
  · rw [hb] at hdamp
    cases hdamp

/-- Another path has another record. -/
theorem DampOk.record_ne {c d : Nat} {rc : BgpPath α} (hc : c ≠ a) (hrc : s.path c = some rc)
    (hd : rc.dampInfo = some d) :
    d ≠ b := by
  rintro rfl
  obtain ⟨r, hr, hrc1⟩ := h.has hrc hd
  rcases hb with hb | ⟨-, hb⟩
  · obtain ⟨r', hr', hra⟩ := h.has hri hb
    rw [hr] at hr'
    cases hr'
    exact hc (hrc1.symm.trans hra)
  · rw [hb] at hr
    cases hr

/-- The path `a` and its record `b` are changed. -/
theorem DampOk.change (haside : s.Aside a b s') (hri' : s'.path a = some ri')
    (hholds : s'.dampLists.Holds l') (hmem : ∀ {c k}, c ≠ b → (c ∈ l' k ↔ c ∈ l k))
    (hpend : ∀ {c}, c ≠ b → c ∉ pend' → c ∉ pend)
    (hb' : Settled cfg pend' l' a b ri.rn ri' s') : s'.DampOk cfg pend' l' := by
  rw [← haside.rn hri hri'] at hb'
  refine ⟨hholds, fun c => ?_, fun c => ?_⟩
  · by_cases hcb : c = b
    · exact hcb ▸ hb'.recordOk hri'
    · exact (h.records c).steady haside.toSteady (haside.record hcb) (hmem hcb) (hpend hcb)
        fun hr => h.owner_ne hri hb hcb hr
  · by_cases hca : c = a
    · exact hca ▸ hb'.pathOk hri'
    · exact (h.paths c).steady haside.toSteady hca fun hrc hd => haside.record (h.record_ne hri hb hca hrc hd)

end

/-! ## Records move -/

theorem record_of_info (h : s.damp.info b = some bdi) : s.record b = some (bdi.binfo, bdi.rn, bdi.index) := by
  unfold record
  rw [h]
  rfl

theorem record_isSome : (s.record b).isSome = (s.damp.info b).isSome := isSome_map ..

theorem exists_info (h : (s.record b).isSome) : ∃ bdi, s.damp.info b = some bdi :=
  isSome_iff_exists.1 (record_isSome ▸ h)

theorem DampOk.info (h : s.DampOk cfg pend l) (hri : s.path a = some ri) (hb : ri.dampInfo = some b) :
    ∃ bdi, s.damp.info b = some bdi ∧ bdi.binfo = a ∧ bdi.rn = ri.rn := by
  obtain ⟨r, hr, rfl⟩ := h.has hri hb
  obtain ⟨-, ri', hri', -, hrn⟩ := h.owner hr
  rw [hri] at hri'
  cases hri'
  obtain ⟨bdi, hbdi, rfl⟩ := map_eq_some_iff.1 hr
  exact ⟨bdi, hbdi, rfl, hrn.symm⟩

theorem bind_putDamp {f : DampInfo → Option Nat} (h : f bdi = (s.damp.info b).bind f) (x : Nat) :
    ((s.putDamp b bdi).damp.info x).bind f = (s.damp.info x).bind f := by
  rw [info_putDamp]
  split_ifs with hx
  · rw [hx, ← h]
    rfl
  · rfl

theorem dampLists_putDamp (hnext : bdi'.next = s.dampLists.next b)
    (hprev : bdi'.prev = s.dampLists.prev b) : (s.putDamp b bdi').dampLists = s.dampLists :=
  Lists.ext (dampHead_putDamp ..) (funext (bind_putDamp hnext)) (funext (bind_putDamp hprev))

theorem mild_putDamp (h : s.damp.info b = some bdi) (hpl : bdi'.place = bdi.place) : s.Mild (s.putDamp b bdi') := by
  obtain ⟨hlnext, hlprev⟩ := links_of_info h
  simp only [DampInfo.place, Prod.mk.injEq] at hpl
  obtain ⟨hnext, hprev, hbinfo, hrn, hidx⟩ := hpl
  refine { (Quiet.refl s).mild with
    lists := dampLists_putDamp (hnext.trans hlnext.symm) (hprev.trans hlprev.symm), record := ?_ }
  funext c
  unfold record
  rw [info_putDamp]
  split_ifs with hc
  · rw [hc, h, map_some, map_some, hbinfo, hrn, hidx]
  · rfl

theorem mild_modifyDamp {f : DampInfo → DampInfo} (h : s.damp.info b = some bdi) (hpl : (f bdi).place = bdi.place) :
    Ends (s.modifyDamp b f) s.Mild := by
  unfold modifyDamp
  rw [h]
  exact .some (mild_putDamp h hpl)

section
variable (hholds : s.dampLists.Holds l) (hmem : ∀ {c k}, c ∈ l k → (s.record c).isSome) {r : Nat × RibNode × Int}
include hholds hmem

theorem ends_unlink (hb : b ∈ l slot) : Ends (s.bgpInfoUnlink slot b) fun s' =>
      s.Relinked s' ∧ s'.dampLists.Holds (update l slot ((l slot).erase b)) := by
  obtain ⟨bdi, hbdi⟩ := exists_info (hmem hb)
  obtain ⟨hnext, hprev⟩ := links_of_info hbdi
  refine (ends_bgpInfoUnlink hbdi (fun n hn => ?_) fun n hn => ?_).mono fun s' hs' => ?_
  · obtain ⟨hn, hne⟩ := hholds.next_mem hb (hnext.trans hn)
    exact ⟨hne, record_isSome ▸ hmem hn⟩
  · exact record_isSome ▸ hmem (hholds.prev_mem hb (hprev.trans hn))
  · refine ⟨hs'.1, ?_⟩
    rw [hs'.2]
    exact hholds.remove hb

theorem ends_link (slot : Option Nat) (hb : (s.record b).isSome) (hnew : ∀ k, b ∉ l k) :
    Ends (s.bgpInfoLink slot b) fun s' => s.Relinked s' ∧
      s'.dampLists.Holds (update l slot (b :: l slot)) ∧
      ∀ c, c ≠ b → s'.dampLists.next c = s.dampLists.next c := by
  refine (ends_bgpInfoLink (record_isSome ▸ hb) fun n hn => ?_).mono fun s' hs' => ?_
  · exact record_isSome ▸ hmem (hholds.head_mem (k := slot) hn)
  · refine ⟨hs'.1, ?_, fun c hc => ?_⟩
    · rw [hs'.2]
      exact hholds.push hnew
    · rw [hs'.2]
      exact update_of_ne hc ..

theorem ends_bgpReuseListAdd (hr : s.record b = some r) (hnew : ∀ k, b ∉ l k) :
    Ends (bgpReuseListAdd env s b) fun s' => s.Relisted (· = b) s' ∧
      (∀ c, c ≠ b → s'.dampLists.next c = s.dampLists.next c) ∧
      ∃ i < env.damp.reuseListSize, s'.dampLists.Holds (update l (some i) (b :: l (some i))) ∧
        s'.record b = some (r.1, r.2.1, (i : Int)) := by
  obtain ⟨bdi, hbdi, rfl⟩ := map_eq_some_iff.1 hr
  refine .next hbdi ?_
  let index := bgpReuseIndex env.damp s.damp.reuseOffset bdi.penalty
  obtain ⟨hlnext, hlprev⟩ := links_of_info hbdi
  have hlists : (s.putDamp b { bdi with index }).dampLists = s.dampLists := dampLists_putDamp hlnext.symm hlprev.symm
  have hinfo : (s.putDamp b { bdi with index }).damp.info b = some { bdi with index } := by
    rw [info_putDamp, if_pos rfl]
  have hrec := record_of_info hinfo
  refine (ends_link (l := l) (by rw [hlists]; exact hholds) ?_ _ (by rw [hrec]; rfl) hnew).mono fun s' hs' => ?_
  · intro c k hc
    by_cases hcb : c = b
    · rw [hcb, hrec]
      rfl
    · rw [((relisted_putDamp s b _).aside 0).record hcb]
      exact hmem hc
  · refine ⟨(relisted_putDamp ..).trans (hs'.1.relisted b), fun c hc => ?_, index,
      Nat.mod_lt _ env.damp.reuseListSize_pos, hs'.2.1, ?_⟩
    · rw [hs'.2.2 c hc, hlists]
    · rw [hs'.1.record, hrec]

theorem ends_dampUnlink {damped : Bool} (hr : s.record b = some r) (hb : Placed cfg l b r.2.2 damped) :
    Ends (dampUnlink s b damped) fun s' => s.Relinked s' ∧ s'.dampLists.Holds
      (update l (dampSlot r.2.2 damped) ((l (dampSlot r.2.2 damped)).erase b)) := by
  unfold dampUnlink
  cases damped with
  | false => exact ends_unlink hholds hmem hb.1
  | true =>
    obtain ⟨bdi, hbdi, rfl⟩ := map_eq_some_iff.1 hr
    refine .next hbdi (.ite (fun hneg => ?_) fun _ => ends_unlink hholds hmem hb.1)
    obtain ⟨i, -, (hi : bdi.index = i)⟩ := hb.2 rfl
    omega

end

/-- The tables and the damping lists are as they should be. -/
structure Well (env : RibEnv α) (s : Rib α) : Prop where
  sound : s.Sound
  lists : ∃ l, s.DampOk env.damp [] l

/-- What was there lasts, and all is well after the change. -/
structure Keeps (env : RibEnv α) (s s' : Rib α) : Prop extends Lasting s s' where
  well : s'.Well env

theorem Lasting.keeps (h : s.Lasting s') (h' : s'.Keeps env s'') : s.Keeps env s'' := ⟨h.trans h'.toLasting, h'.well⟩

theorem quiet_deleteWithdrawn {bdi : DampInfo} (hri : s.path bdi.binfo = some ri) (withdraw : Bool) :
    Ends (deleteWithdrawn env s bdi withdraw) fun s' => s.Quiet s' ∧ s'.info = s.info := by
  refine .ite (fun _ => (ends_bgpInfoDelete hri).mono fun s' hs' => ⟨?_, hs'.info⟩) fun _ => .some ⟨.refl s, rfl⟩
  exact hs'.quiet hri (env.flagged_rn ri) (env.flagged_dampInfo ri)
    (env.flagged_setFlags_damped ri (by decide) (by decide))

theorem holds_free (hholds : s.dampLists.Holds l) (hb : ∀ k, b ∉ l k) :
    ({ s with damp := { s.damp with info := update s.damp.info b none } } : Rib α).dampLists.Holds l := by
  have hinfo : ∀ {k c}, c ∈ l k → update s.damp.info b none c = s.damp.info c := by
    intro k c hc
    refine update_of_ne ?_ ..
    rintro rfl
    exact hb k hc
  refine hholds.congr ?_ (fun hc => congrArg (·.bind (·.next)) (hinfo hc)) fun hc =>
    congrArg (·.bind (·.prev)) (hinfo hc)
  funext k
  cases k <;> rfl

theorem relisted_free (s : Rib α) (b : Nat) :
    s.Relisted (· = b) { s with damp := { s.damp with info := update s.damp.info b none } } := by
  refine ⟨_, rfl, fun c hc => ?_⟩
  show (update s.damp.info b none c).map _ = _
  rw [update_of_ne hc]

theorem extra_of_dampInfo (hb : ri.dampInfo = some b) : ∃ extra, ri.extra = some extra := by
  unfold BgpPath.dampInfo at hb
  cases h : ri.extra with
  | none =>
    rw [h] at hb
    cases hb
  | some extra => exact ⟨extra, rfl⟩

variable (h : s.Well env)
include h

theorem Well.lasting (hlasting : s.Lasting s') (hok : ∃ l, s'.DampOk env.damp [] l) : s.Keeps env s' :=
  ⟨hlasting, h.sound.lasting hlasting, hok⟩

theorem Well.mild (hm : s.Mild s') : s.Keeps env s' := by
  obtain ⟨l, hl⟩ := h.lists
  exact h.lasting hm.toLasting ⟨l, hl.mild hm⟩

theorem Well.info (hri : s.path a = some ri) (hb : ri.dampInfo = some b) :
    ∃ bdi, s.damp.info b = some bdi ∧ bdi.binfo = a ∧ bdi.rn = ri.rn := by
  obtain ⟨l, hl⟩ := h.lists
  exact hl.info hri hb

theorem Well.quiet (hq : s.Quiet s') : s.Keeps env s' := h.mild hq.mild
theorem Well.of_mild {x : Option (Rib α)} (hx : Ends x s.Mild) : Ends x (s.Keeps env) := hx.mono fun _ => h.mild

variable (hri : s.path a = some ri) (hb : ri.dampInfo = some b)
include hri hb

/-- The record of a path is taken out of its list. From there on the lists are as they should be once the record is in
the right one again, or gone. -/
theorem Well.unlink (haside : s.Aside a b s1) (hlists : s1.dampLists = s.dampLists)
    (hrec : s1.record = s.record) : Ends (dampUnlink s1 b (ri.flags .damped)) fun s2 => s1.Relinked s2 ∧ b < s2.brk ∧
      ∃ l2 i, s2.dampLists.Holds l2 ∧ (∀ {c k}, c ∈ l2 k → (s2.record c).isSome) ∧ (∀ k, b ∉ l2 k) ∧
        s2.record b = some (a, ri.rn, i) ∧
        ∀ {s3 : Rib α} {ri3 l3}, s2.Aside a b s3 → s3.path a = some ri3 → s3.dampLists.Holds l3 →
          (∀ {c k}, c ≠ b → (c ∈ l3 k ↔ c ∈ l2 k)) → Settled env.damp [] l3 a b ri.rn ri3 s3 → s.Keeps env s3 := by
  obtain ⟨l, hl⟩ := h.lists
  obtain ⟨r, hr, rfl⟩ := hl.has hri hb
  obtain ⟨hlt, ri', hri', -, hrn⟩ := hl.owner hr
  rw [hri] at hri'
  cases hri'
  have hplaced := hl.placed hr hri List.not_mem_nil
  have hr1 : s1.record b = some r := by rw [hrec, hr]
  have hholds1 : s1.dampLists.Holds l := by
    rw [hlists]
    exact hl.holds
  have hmem1 : ∀ {c k}, c ∈ l k → (s1.record c).isSome := by
    intro c k hc
    rw [hrec]
    exact hl.mem hc
  refine (ends_dampUnlink hholds1 hmem1 hr1 hplaced).mono fun s2 h2 => ?_
  obtain ⟨hlink, hholds2⟩ := h2
  have hnot := hholds1.not_mem_update_erase hplaced.1
  refine ⟨hlink, ?_, _, r.2.2, hholds2, ?_, hnot, ?_, ?_⟩
  · rw [hlink.brk]
    exact hlt.trans_le haside.brk
  · intro c k hc
    rw [hlink.record]
    refine hmem1 (k := k) ((Lists.mem_update_erase ?_).1 hc)
    rintro rfl
    exact hnot k hc
  · rw [hlink.record, hr1, hrn]
  · intro s3 ri3 l3 haside3 hri3 hholds3 hmem3 hstl
    have haside' := (haside.trans ((hlink.relisted b).aside _)).trans haside3
    refine h.lasting haside'.toLasting ⟨l3, hl.change hri (.inl hb) haside' hri3 hholds3 ?_ (fun _ hc => hc) hstl⟩
    intro c k hc
    rw [hmem3 hc, Lists.mem_update_erase hc]

/-- A record goes from the list it is in to a reuse list, after its path was marked as damped. -/
theorem Well.toReuse {ri1 : BgpPath α} (hflips : s.Flips a s1) (hri1 : s1.path a = some ri1)
    (hdmp : ri1.flags .damped = true) :
    Ends (do let s ← dampUnlink s1 b (ri.flags .damped); bgpReuseListAdd env s b) (s.Keeps env) := by
  refine (h.unlink hri hb (hflips.aside b) hflips.lists hflips.record).bind fun s2 h2 => ?_
  obtain ⟨hlink, hlt, l2, i2, hholds2, hmem2, hnot, hr2, hdone⟩ := h2
  refine (ends_bgpReuseListAdd hholds2 hmem2 hr2 hnot).mono fun s3 h3 => ?_
  obtain ⟨hlist, -, i, hi, hholds3, hr3⟩ := h3
  have hri3 : s3.path a = some ri1 := by
    rw [hlist.path, hlink.path, hri1]
  refine hdone (hlist.aside a) hri3 hholds3 Lists.mem_update_cons (.inl ⟨i, hr3, ?_, ?_, fun _ => ?_⟩)
  · rwa [hlist.brk]
  · exact (hflips.kept hri hri1).trans hb
  · rw [hdmp]
    exact ⟨Lists.mem_update_cons_self, fun _ => ⟨i, hi, rfl⟩⟩

/-- A damped path is used again. -/
theorem Well.reuse (hdmp : ri.flags .damped = true) : Ends (dampReuse env s a b) fun s' => s.Keeps env s' ∧
      ∃ ri', s'.path a = some ri' ∧ ri'.dampInfo = some b := by
  refine (flips_bgpInfoPutFlags hri).bind fun s1 h1 => ?_
  obtain ⟨hflips, hri1⟩ := h1
  have hunlink := h.unlink hri hb (hflips.aside b) hflips.lists hflips.record
  rw [hdmp] at hunlink
  refine hunlink.bind fun s2 h2 => ?_
  obtain ⟨hlink, hlt, l2, i2, hholds2, hmem2, hnot, hr2, hdone⟩ := h2
  refine (ends_link hholds2 hmem2 none (by rw [hr2]; rfl) hnot).bind fun s3 h3 => ?_
  obtain ⟨hlink3, hholds3, -⟩ := h3
  have hri3 : s3.path a = some (env.flagged ri [.damped] false) := by
    rw [hlink3.path, hlink.path, hri1]
  have hkeeps := hdone ((hlink3.relisted b).aside a) hri3 hholds3 Lists.mem_update_cons
    (.inl ⟨i2, by rw [hlink3.record, hr2], by rwa [hlink3.brk], by rw [env.flagged_dampInfo, hb], fun _ => by
      rw [env.flagged_flags ri (by decide)]
      exact ⟨Lists.mem_update_cons_self, nofun⟩⟩)
  obtain ⟨bdi, hbdi⟩ := exists_info (s := s3) (b := b) (by rw [hlink3.record, hr2]; rfl)
  refine (mild_modifyDamp hbdi rfl).mono fun s4 h4 => ?_
  obtain ⟨ri4, hri4, -⟩ := h4.path hri3
  refine ⟨hkeeps.keeps (hkeeps.well.mild h4), ri4, hri4, ?_⟩
  rw [(h4.same id hri3 hri4).1, env.flagged_dampInfo, hb]

theorem Well.free (withdraw : Bool) : Ends (bgpDampInfoFree env s b withdraw) fun s' => s.Keeps env s' ∧
    s'.info = s.info ∧
      ∃ ri', s'.path a = some ri' ∧ ri'.dampInfo = none := by
  obtain ⟨bdi, hbdi, rfl, -⟩ := h.info hri hb
  obtain ⟨extra, hex⟩ := extra_of_dampInfo hb
  refine .next hbdi (.next hri (.next hex ?_))
  refine (ends_modifyPath hri).bind ?_
  rintro s1 rfl
  have hputs : s.Puts bdi.binfo { ri with extra := some { ri.getExtra with dampInfo := none } }
      (s.putPath bdi.binfo { ri with extra := some { ri.getExtra with dampInfo := none } }) := ⟨s.pcount, rfl⟩
  refine (h.unlink hri hb (hputs.aside hri rfl b) rfl rfl).bind fun s2 h2 => ?_
  obtain ⟨hlink, hlt, l2, i2, hholds2, hmem2, hnot, hr2, hdone⟩ := h2
  have hri2 : s2.path bdi.binfo = some { ri with extra := some { ri.getExtra with dampInfo := none } } := by
    rw [hlink.path, hputs.path_self]
  refine (ends_bgpInfoPutFlags hri2).bind fun s3 h3 => ?_
  have hflips := h3.flips hri2 (env.flagged_rn _) (env.flagged_dampInfo _)
  have hri3 := h3.path_self
  refine (quiet_deleteWithdrawn hri3 withdraw).bind fun s4 h4 => ?_
  obtain ⟨h4, hinfo4⟩ := h4
  obtain ⟨ri4, hri4, -⟩ := h4.path hri3
  have hsame := h4.same id hri3 hri4
  have hnone : ri4.dampInfo = none := by
    rw [hsame.1, env.flagged_dampInfo]
    rfl
  refine .some ⟨hdone (((hflips.aside b).trans (h4.mild.aside _ b)).trans ((relisted_free s4 b).aside _)) hri4
    (holds_free (l := l2) ?_ hnot) (fun _ => Iff.rfl) (.inr ⟨?_, hnone, ?_, hnot⟩), ?_, ri4, hri4, hnone⟩
  · rw [h4.mild.lists, hflips.lists]
    exact hholds2
  · show (update s4.damp.info b none b).map _ = none
    rw [update_self]
    rfl
  · rw [hsame.2, env.flagged_flags _ (by decide), if_pos (by decide)]
  · rw [hinfo4, h3.info, hlink.info]
    rfl

end Rib

end Lists

end Tarpan.Bgpd
