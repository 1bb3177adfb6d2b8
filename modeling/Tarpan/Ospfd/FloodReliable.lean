/-
Reliable flooding. After a received instance was flooded and installed, or an own one installed and flooded, every
neighbour that is to get it has it on its retransmission list and no older one is left, exactly if the condition holds:
above all, a received instance must not have the sequence number of the one that it replaces.
-/
import Tarpan.Ospfd.FloodLists

namespace Tarpan.Ospfd.Flood

open List Function

variable {now : Int} {env : Env} {s s' s1 s2 : Ospf} {inbr : Option Sender} {lsa old new : LsaRef} {nbr nbr' : Nbr}
  {area area' : Area} {oi oi' : Oi} {m m' : Memory} {key : LsaKey} {a : Option Nat} {p : Nat}
  {R : Area → Oi → Nbr → Nbr → Prop} {L : Area → Oi → Nat → Prop} {g : Ospf → Ospf}

/-! ## What does not depend on the neighbours -/

/-- What the databases and the own LSAs depend on. -/
def Area.outline (area : Area) : Nat × Table × List (IfType × UInt32) :=
  (area.pointer, area.lsdb, area.oiflist.map fun oi => (oi.type, oi.address))

/-- States that differ in what is known of the neighbours. -/
structure Alike (s s' : Ospf) : Prop where
  memory : s'.memory = s.memory
  routerId : s'.routerId = s.routerId
  lsdb : s'.lsdb = s.lsdb
  areas : s'.areas.map Area.outline = s.areas.map Area.outline

theorem alike_mapOis {f : Area → Oi → Oi}
    (h : ∀ area (oi : Oi), oi.Same (f area oi) ∧ (f area oi).address = oi.address) :
    Alike s (s.mapOis f) := by
  refine ⟨rfl, rfl, rfl, ?_⟩
  change map _ (map _ _) = _
  rw [map_map]
  refine map_congr_left fun area _ => ?_
  simp only [comp_apply, Area.outline, map_map]
  refine Prod.ext rfl (Prod.ext rfl (map_congr_left fun oi _ => ?_))
  rw [comp_apply, (h area oi).1.type, (h area oi).2]

theorem Alike.trans (h : Alike s s1) (h' : Alike s1 s2) : Alike s s2 :=
  ⟨h'.memory.trans h.memory, h'.routerId.trans h.routerId, h'.lsdb.trans h.lsdb, h'.areas.trans h.areas⟩

theorem Alike.set (h : Alike s s') (lsa : LsaRef) (f : Instance → Instance) : Alike (s.set lsa f) (s'.set lsa f) := by
  refine ⟨?_, h.routerId, h.lsdb, h.areas⟩
  change update _ _ _ = update _ _ _
  rw [h.memory]

theorem copyOf_eq (s : Ospf) (lsa : LsaRef) : copyOf s lsa = if ofArea s lsa then
    ((s.areas.map Area.outline).find? fun o => (s.memory lsa).area = some o.1).bind fun o => lookup o.2.1 lsa.key
    else lookup s.lsdb lsa.key := by
  rw [copyOf, find?_map, Option.bind_map]
  rfl

theorem Alike.copyOf (h : Alike s s') (lsa : LsaRef) : copyOf s' lsa = copyOf s lsa := by
  rw [copyOf_eq, copyOf_eq, ofArea, ofArea, h.memory, h.lsdb, h.areas]

theorem anyOi_eq (s : Ospf) (q : IfType × UInt32 → Bool) :
    (s.anyOi fun _ oi => q (oi.type, oi.address)) = (s.areas.map Area.outline).any fun o => o.2.2.any q := by
  rw [Ospf.anyOi, any_map]
  refine congrArg (any s.areas) (funext fun area => ?_)
  rw [comp_apply, Area.outline, any_map]
  rfl

theorem Alike.isSelfOriginated (h : Alike s s') (lsa : LsaRef) : isSelfOriginated s' lsa = isSelfOriginated s lsa := by
  have hany := fun s => anyOi_eq s fun o => decide (o.1 ≠ .virtualLink ∧ lsa.key.id = o.2)
  rw [Flood.isSelfOriginated, Flood.isSelfOriginated, h.memory, h.routerId]
  rw [hany s, hany s', h.areas]

theorem Alike.checkSelf (h : Alike s s') (lsa : LsaRef) : Alike (checkSelf s lsa) (checkSelf s' lsa) := by
  rw [Flood.checkSelf, Flood.checkSelf, h.isSelfOriginated]
  exact h.set lsa _

theorem Alike.ageWrapped (h : Alike s s') (now : Int) (lsa : LsaRef) :
    Alike (ageWrapped now s lsa) (ageWrapped now s' lsa) := by
  rw [Flood.ageWrapped, Flood.ageWrapped, wraps, wraps, h.memory]
  split
  · exact (h.checkSelf lsa).set lsa _
  · exact h

/-- Steps that work on the memory alone. -/
def OnMemory (g : Ospf → Ospf) : Prop := ∃ f : Memory → Memory, ∀ s, g s = { s with memory := f s.memory }

theorem OnMemory.areas (h : OnMemory g) (s : Ospf) : (g s).areas = s.areas := by
  obtain ⟨f, hf⟩ := h
  rw [hf]

theorem OnMemory.memory (h : OnMemory g) (hm : s'.memory = s.memory) : (g s').memory = (g s).memory := by
  obtain ⟨f, hf⟩ := h
  rw [hf, hf, hm]

theorem onMemory_sumSelf (env : Env) (lsa : LsaRef) : OnMemory (sumSelf env · lsa) := by
  refine ⟨fun m =>
    if (m lsa).self then update m lsa { m lsa with checksum := env.checksum lsa (m lsa) } else m, fun s => ?_⟩
  dsimp only [sumSelf]
  split <;> rfl

theorem onMemory_setOi (oi : Option Nat) (lsa : LsaRef) : OnMemory (setOi · oi lsa) := by
  refine ⟨fun m => if lsa.key.type = 9 ∧ (m lsa).self then update m lsa { m lsa with oi } else m, fun s => ?_⟩
  dsimp only [setOi]
  split <;> rfl

/-! ## Installation -/

/-- An LSA whose sequence number wraps and that is not an own one is not installed. -/
def Ignored (s : Ospf) (lsa : LsaRef) : Prop := wraps s lsa = true ∧ ¬isSelfOriginated s lsa = true

instance Ignored.decidable (s : Ospf) (lsa : LsaRef) : Decidable (Ignored s lsa) := inferInstanceAs (Decidable (_ ∧ _))

/-- Memory after the installation. -/
def installedMemory (env : Env) (s : Ospf) (oi : Option Nat) (lsa : LsaRef) : Memory :=
  if Ignored s lsa then (checkSelf s lsa).memory
  else (setOi (sumSelf env (ageWrapped env.now s lsa) lsa) oi lsa).memory

theorem Alike.ignored (h : Alike s s') : Ignored s' lsa ↔ Ignored s lsa := by
  rw [Ignored, Ignored, h.isSelfOriginated, wraps, wraps, h.memory]

theorem Alike.installedMemory (h : Alike s s') (env : Env) (oi : Option Nat) (lsa : LsaRef) :
    installedMemory env s' oi lsa = installedMemory env s oi lsa := by
  rw [Flood.installedMemory, Flood.installedMemory, (h.checkSelf lsa).memory,
    (onMemory_setOi oi lsa).memory ((onMemory_sumSelf env lsa).memory (h.ageWrapped env.now lsa).memory)]
  exact if_congr h.ignored rfl rfl

theorem install_ignored (h : Ignored s lsa) (oi : Option Nat) :
    ospfLsaInstall env s oi lsa = (checkSelf s lsa, copyOf s lsa) :=
  if_pos h

theorem install_done (h : ¬Ignored s lsa) (oi : Option Nat) : (ospfLsaInstall env s oi lsa).1 =
    setOi (addToLsdb (sumSelf env ((copyOf s lsa).elim (ageWrapped env.now s lsa)
      (ospfDiscardFromDb (ageWrapped env.now s lsa))) lsa) lsa) oi lsa :=
  congrArg Prod.fst (if_neg h)

section
variable (s : Ospf) (lsa : LsaRef)

theorem ageWrapped_areas (now : Int) : (ageWrapped now s lsa).areas = s.areas := by
  rw [ageWrapped]
  split <;> rfl

theorem addToLsdb_memory : (addToLsdb s lsa).memory = s.memory := by
  rw [addToLsdb]
  split <;> rfl

theorem install_memory (env : Env) (oi : Option Nat) :
    (ospfLsaInstall env s oi lsa).1.memory = installedMemory env s oi lsa := by
  rw [installedMemory]
  split_ifs with hign
  · rw [install_ignored hign]
  rw [install_done hign]
  refine (onMemory_setOi oi lsa).memory ((addToLsdb_memory _ lsa).trans ((onMemory_sumSelf env lsa).memory ?_))
  cases copyOf s lsa with
  | none => rfl
  | some c => exact (congrArg Ospf.memory (deleteCopy_eq ..)).trans rfl

end

theorem copyOf_key (h : old ∈ copyOf s lsa) : old.key = lsa.key := by
  rw [copyOf_eq] at h
  have hlk : ∀ t : Table, old ∈ lookup t lsa.key → old.key = lsa.key := by
    intro t ht
    obtain ⟨q, -, rfl⟩ := Option.map_eq_some_iff.1 ht
    rfl
  split at h
  · obtain ⟨o, -, ho⟩ := Option.bind_eq_some_iff.1 h
    exact hlk _ ho
  · exact hlk _ h

theorem Nbrs.areas_right (h : Nbrs R s s1) (h' : s2.areas = s1.areas) : Nbrs R s s2 := by
  rw [Nbrs, h']
  exact h

theorem Nbrs.areas_left (h : Nbrs R s1 s2) (h' : s1.areas = s.areas) : Nbrs R s s2 := by
  rw [Nbrs, ← h']
  exact h

theorem addToLsdb_nbrs (s : Ospf) (lsa : LsaRef) : Nbrs (fun _ _ nbr nbr' => nbr' = nbr) s (addToLsdb s lsa) := by
  rw [addToLsdb]
  split
  · refine forall₂_map_right_iff.2 (forall₂_same.2 fun area _ => ?_)
    have hsame : Forall₂ (fun oi oi' : Oi => oi.Same oi' ∧ Forall₂ (fun nbr nbr' => nbr' = nbr) oi.nbrs oi'.nbrs)
        area.oiflist area.oiflist :=
      forall₂_same.2 fun oi _ => ⟨oi.same_rfl, forall₂_same.2 fun nbr _ => rfl⟩
    split
    · exact ⟨⟨rfl, rfl, rfl⟩, hsame⟩
    · exact ⟨area.same_rfl, hsame⟩
  · exact nbrs_of_areas rfl fun _ _ _ => rfl

theorem taken_same (harea : area.Same area') (hoi : oi.Same oi') :
    Taken m a old area' oi' p ↔ Taken m a old area oi p := by
  rw [Taken, Taken, covers, covers, harea.pointer, hoi.enabled]

/-- The entries that the installation takes from the lists. -/
def Replaced (now : Int) (s : Ospf) (lsa : LsaRef) (area : Area) (oi : Oi) (p : Nat) : Prop :=
  ¬Ignored s lsa ∧ ∃ old ∈ copyOf s lsa,
    Taken (ageWrapped now s lsa).memory ((ageWrapped now s lsa).memory old).area old area oi p

theorem install_nbrs (env : Env) (s : Ospf) (oi : Option Nat) (lsa : LsaRef) :
    Nbrs (DeleteStep lsa.key (Replaced env.now s lsa)) s (ospfLsaInstall env s oi lsa).1 := by
  by_cases hign : Ignored s lsa
  · rw [install_ignored hign]
    exact nbrs_of_areas rfl fun area oi nbr => deleteStep_rfl fun p hp => hp.1 hign
  have hdis : Nbrs (DeleteStep lsa.key (Replaced env.now s lsa)) s
      ((copyOf s lsa).elim (ageWrapped env.now s lsa) (ospfDiscardFromDb (ageWrapped env.now s lsa))) := by
    cases hcopy : copyOf s lsa with
    | none =>
      refine nbrs_of_areas (ageWrapped_areas s lsa env.now) fun area oi nbr => deleteStep_rfl fun p hp => ?_
      obtain ⟨old, hold, -⟩ := hp.2
      rw [hcopy] at hold
      cases hold
    | some old =>
      have hrep : Replaced env.now s lsa =
          Taken (ageWrapped env.now s lsa).memory ((ageWrapped env.now s lsa).memory old).area old := by
        funext area oi p
        simp [Replaced, hcopy, hign]
      rw [hrep, ← copyOf_key (Option.mem_def.2 hcopy)]
      exact (deleteCopy_nbrs ..).areas_left (ageWrapped_areas s lsa env.now)
  have hadd := (addToLsdb_nbrs (sumSelf env _ lsa) lsa).areas_left ((onMemory_sumSelf env lsa).areas
    ((copyOf s lsa).elim (ageWrapped env.now s lsa) (ospfDiscardFromDb (ageWrapped env.now s lsa))))
  rw [install_done hign]
  refine Nbrs.areas_right (hdis.trans hadd ?_) ((onMemory_setOi oi lsa).areas _)
  rintro area area' oi oi' nbr nbr' _ - - hdel rfl
  exact hdel

/-! ## Reliable flooding -/

/-- The interfaces that an LSA is flooded through: those of its area, or of the domain. -/
def floodScope (s : Ospf) (lsa : LsaRef) (domain : Bool) : Area → Oi → Bool :=
  if domain then inAs s lsa else inArea s lsa (s.memory lsa).area

/-- The same instance of the LSA as the new one. -/
def SameInstance (now : Int) (m : Memory) (new : LsaRef) (p : Nat) : Prop :=
  moreRecent now m (some ⟨new.key, p⟩) (some new) = 0

/-- Every neighbour that flooding applies to, as things are in `t`, has the new instance on its list, and none has an
older one. -/
def Reliable (now : Int) (t : Ospf) (scope : Area → Oi → Bool) (inbr : Option Sender) (new : LsaRef)
    (s s' : Ospf) : Prop :=
  Nbrs (fun area oi nbr nbr' =>
    (Applies now t scope inbr new area oi nbr → ∃ p ∈ nbr'.lsRxmt new.key, SameInstance now s'.memory new p) ∧
    ∀ p ∈ nbr'.lsRxmt new.key, ¬Older now s'.memory new p) s s'

theorem sameInstance_self (now : Int) (m : Memory) (new : LsaRef) : SameInstance now m new new.address := by
  have hneg := ospfLsaMoreRecent_neg now (some (lsaOf m new)) (some (lsaOf m new))
  change ospfLsaMoreRecent now (some (lsaOf m new)) (some (lsaOf m new)) = 0
  omega

theorem not_older_self (now : Int) (m : Memory) (new : LsaRef) : ¬Older now m new new.address := by
  have hsame : moreRecent now m (some new) (some new) = 0 := sameInstance_self now m new
  change ¬moreRecent now m (some new) (some new) < 0
  omega

/-- A list after the new instance `q` was added, unless it left again, or else after the entries `L` left. -/
theorem reliable_list_iff {A G E : Prop} {S O L : Nat → Prop} {list list' : Option Nat} {q : Nat} (hA : A → G)
    (hS : S q) (hO : ¬O q) (hadd : A → ∀ p, p ∈ list' ↔ p = q ∧ ¬E) (hkept : ¬A → ∀ p, p ∈ list' ↔ p ∈ list ∧ ¬L p) :
    ((G → ∃ p ∈ list', S p) ∧ ∀ p ∈ list', ¬O p) ↔
      (A → ¬E) ∧ (¬A → G → ∃ p ∈ list, S p ∧ ¬L p) ∧ (¬A → ∀ p ∈ list, O p → L p) := by
  by_cases hadds : A
  · have hmem := hadd hadds
    constructor
    · rintro ⟨hgets, -⟩
      obtain ⟨p, hp, -⟩ := hgets (hA hadds)
      exact ⟨fun _ => ((hmem p).1 hp).2, fun hnot => absurd hadds hnot, fun hnot => absurd hadds hnot⟩
    · rintro ⟨hstays, -⟩
      refine ⟨fun _ => ⟨q, (hmem q).2 ⟨rfl, hstays hadds⟩, hS⟩, fun p hp => ?_⟩
      rw [((hmem p).1 hp).1]
      exact hO
  · simp only [hkept hadds, hadds, false_imp_iff, true_and, not_false_eq_true, forall_const]
    refine and_congr (imp_congr_right fun _ => exists_congr fun p => ?_) (forall_congr' fun p => ?_)
    · rw [and_assoc, and_comm (a := ¬L p)]
    · rw [and_imp, not_imp_not]

/-! ### Received LSAs -/

theorem deleteCopy_alike (s : Ospf) (a : Option Nat) (lsa : LsaRef) : Alike s (deleteCopy s a lsa) := by
  rw [deleteCopy_eq]
  exact alike_mapOis (deleteOi_same s.memory a lsa)

section Received
variable (env : Env) (now : Int) (s : Ospf) (scope : Area → Oi → Bool) (inbr : Option Sender) (nbr : Sender)
  (lsa new : LsaRef)

/-- A received LSA before its installation. -/
def ready : Ospf := checkSelf (s.set new ({ · with received := true })) new

/-- The entries that leave the lists after a received LSA was flooded: those with the sequence number of the copy in the
database, by `ospf_flood` and by `ospf_lsa_install`. -/
def Leaves (area : Area) (oi : Oi) (p : Nat) : Prop :=
  (∃ old ∈ copyOf s new, Taken s.memory (some nbr.area) old area oi p) ∨ Replaced now (ready s new) new area oi p

/-- Memory after a received LSA was installed. -/
def receivedMemory : Memory := installedMemory env (ready s new) (some nbr.oi) new

/-- The condition for a neighbour when an LSA is received. If it is added to the list, it does not have the sequence
number of the copy. Otherwise a neighbour that is to get it has it on the list, with another sequence number than the
copy, and an older instance on the list has the sequence number of the copy. -/
structure KeepsReceived (area : Area) (oi : Oi) (onbr : Nbr) : Prop where
  added : Adds env.now s (floodScope s new (isAs new.key)) (some nbr) new area oi onbr →
    ¬Leaves env.now s nbr new area oi new.address
  listed : ¬Adds env.now s (floodScope s new (isAs new.key)) (some nbr) new area oi onbr →
    Applies env.now s (floodScope s new (isAs new.key)) (some nbr) new area oi onbr →
    ∃ p ∈ onbr.lsRxmt new.key, SameInstance env.now (receivedMemory env s nbr new) new p ∧
      ¬Leaves env.now s nbr new area oi p
  others : ¬Adds env.now s (floodScope s new (isAs new.key)) (some nbr) new area oi onbr →
    ∀ p ∈ onbr.lsRxmt new.key, Older env.now (receivedMemory env s nbr new) new p → Leaves env.now s nbr new area oi p

theorem floodThrough_eq :
    ospfFloodThrough now s inbr lsa = floodThroughOis now s (floodScope s lsa (isAs lsa.key)) inbr lsa := by
  rw [ospfFloodThrough, floodScope]
  split <;> rfl

theorem floodThroughOis_alike : Alike s (floodThroughOis now s scope inbr lsa).1 := by
  refine alike_mapOis fun area oi => ?_
  obtain ⟨hsame, haddress, -⟩ := floodOi_same now s scope inbr lsa area oi
  exact ⟨hsame, haddress⟩

theorem floodThrough_alike : Alike s (ospfFloodThrough now s inbr lsa).1 := by
  rw [floodThrough_eq]
  exact floodThroughOis_alike ..

/-- The list of a neighbour after a received LSA was flooded. -/
def ReceiveStep (area : Area) (oi : Oi) (onbr onbr' : Nbr) : Prop :=
  ∀ p, p ∈ onbr'.lsRxmt new.key ↔
    ((Adds now s (floodScope s new (isAs new.key)) (some nbr) new area oi onbr ∧ p = new.address) ∨
      (¬Adds now s (floodScope s new (isAs new.key)) (some nbr) new area oi onbr ∧ p ∈ onbr.lsRxmt new.key)) ∧
    ¬Leaves now s nbr new area oi p

/-- After the copy left the lists, `ospf_flood` installs the LSA. -/
def received : Ospf :=
  (copyOf s new).elim (ospfFloodThrough now s (some nbr) new).1
    (deleteCopy (ospfFloodThrough now s (some nbr) new).1 (some nbr.area))

theorem received_nbrs :
    Nbrs (DeleteStep new.key fun area oi p => ∃ old ∈ copyOf s new, Taken s.memory (some nbr.area) old area oi p)
      (ospfFloodThrough now s (some nbr) new).1 (received now s nbr new) := by
  rw [received]
  cases hcopy : copyOf s new with
  | none => exact nbrs_of_areas rfl fun area oi nbr => deleteStep_rfl fun p hp => by simp at hp
  | some old =>
    have hdel := deleteCopy_nbrs (ospfFloodThrough now s (some nbr) new).1 (some nbr.area) old
    rw [(floodThrough_alike ..).memory, copyOf_key (Option.mem_def.2 hcopy)] at hdel
    simpa using hdel

theorem received_alike : Alike s (received now s nbr new) := by
  rw [received]
  cases copyOf s new with
  | none => exact floodThrough_alike ..
  | some old => exact (floodThrough_alike ..).trans (deleteCopy_alike ..)

end Received

theorem Alike.ready (h : Alike s s') (new : LsaRef) : Alike (ready s new) (ready s' new) := (h.set new _).checkSelf new

theorem Alike.replaced (h : Alike s s') : Replaced now s' lsa = Replaced now s lsa := by
  funext area oi p
  rw [Replaced, Replaced, h.copyOf, (h.ageWrapped now lsa).memory, h.ignored]

/-- What is left of a list after the copy left it twice. -/
theorem receive_nbrs {s1 s2 s3 : Ospf} {nbr : Sender}
    (hflood : Nbrs (FloodStep now s (floodScope s new (isAs new.key)) (some nbr) new) s s1)
    (hcopy : Nbrs (DeleteStep new.key fun area oi p => ∃ old ∈ copyOf s new,
      Taken s.memory (some nbr.area) old area oi p) s1 s2)
    (hins : Nbrs (DeleteStep new.key (Replaced now (ready s new) new)) s2 s3) :
    Nbrs (ReceiveStep now s nbr new) s s3 := by
  have hboth : Nbrs (fun area oi n n' => ∀ p, p ∈ n'.lsRxmt new.key ↔ p ∈ n.lsRxmt new.key ∧
    ¬Leaves now s nbr new area oi p)
      s1 s3 := by
    refine hcopy.trans hins ?_
    rintro area area' oi oi' n n1 n2 harea hoi ⟨-, hmem⟩ ⟨-, hmem'⟩ p
    have hsame : Replaced now (ready s new) new area' oi' p ↔ Replaced now (ready s new) new area oi p := by
      rw [Replaced, Replaced]
      simp [taken_same harea hoi]
    rw [hmem', hmem, hsame, Leaves, not_or, and_assoc]
  refine hflood.trans hboth ?_
  intro area area' oi oi' n n1 n2 harea hoi hstep hmem p
  have hsame : Leaves now s nbr new area' oi' p ↔ Leaves now s nbr new area oi p := by
    rw [Leaves, Leaves, Replaced, Replaced]
    simp [taken_same harea hoi]
  rw [hmem, hstep, hsame]

theorem acknowledge_nbrs (nbr : Sender) (lsaAckFlag : Bool) (installed : Ospf × Option LsaRef) :
    Nbrs (fun _ _ n n' => n' = n) installed.1 (acknowledge nbr lsaAckFlag installed).1 ∧
      (acknowledge nbr lsaAckFlag installed).1.memory = installed.1.memory := by
  rw [acknowledge]
  cases installed.2 with
  | none => exact ⟨nbrs_of_areas rfl fun _ _ _ => rfl, rfl⟩
  | some lsa =>
    dsimp only
    split
    · refine ⟨nbrs_mapOis (g := fun _ _ n => n) ?_ ?_ fun _ _ _ => rfl, rfl⟩
      · intro area oi
        split
        · exact ⟨rfl, rfl, rfl⟩
        · exact oi.same_rfl
      · intro area oi
        rw [map_id']
        split <;> rfl
    · exact ⟨nbrs_of_areas rfl fun _ _ _ => rfl, rfl⟩

section
variable (nbr : Sender) (h : tooEarly env.now s (copyOf s new) = false)
include h

theorem ospfFlood_eq :
    ospfFlood env s nbr (copyOf s new) new = acknowledge nbr (ospfFloodThrough env.now s (some nbr) new).2
      (ospfLsaInstall env (ready (received env.now s nbr new) new) (some nbr.oi) new) :=
  if_neg (by simp [h])

theorem ospfFlood_step : Nbrs (ReceiveStep env.now s nbr new) s (ospfFlood env s nbr (copyOf s new) new).1 ∧
      (ospfFlood env s nbr (copyOf s new) new).1.memory = receivedMemory env s nbr new := by
  have halike := received_alike env.now s nbr new
  obtain ⟨hack, hmry⟩ := acknowledge_nbrs nbr (ospfFloodThrough env.now s (some nbr) new).2
    (ospfLsaInstall env (ready (received env.now s nbr new) new) (some nbr.oi) new)
  rw [ospfFlood_eq nbr h]
  constructor
  · have hflood := @floodThroughOis_nbrs env.now s (some nbr) new (floodScope s new (isAs new.key))
    rw [← floodThrough_eq] at hflood
    have hins := (install_nbrs env (ready (received env.now s nbr new) new) (some nbr.oi) new).areas_left
      (show (ready (received env.now s nbr new) new).areas = (received env.now s nbr new).areas from rfl)
    rw [(halike.ready new).replaced] at hins
    refine receive_nbrs hflood (received_nbrs env.now s nbr new) (hins.trans hack ?_)
    rintro area area' oi oi' n n' _ - - hdel rfl
    exact hdel
  · rw [hmry, install_memory, (halike.ready new).installedMemory]
    rfl

end

theorem received_reliable_iff (env : Env) (s : Ospf) (new : LsaRef) (nbr : Sender)
    (h : tooEarly env.now s (copyOf s new) = false) :
    Reliable env.now s (floodScope s new (isAs new.key)) (some nbr) new s (ospfFlood env s nbr (copyOf s new) new).1 ↔
      ∀ area ∈ s.areas, ∀ oi ∈ area.oiflist, ∀ onbr ∈ oi.nbrs, KeepsReceived env s nbr new area oi onbr := by
  obtain ⟨hstep, hmry⟩ := ospfFlood_step nbr h
  rw [Reliable, hmry]
  refine hstep.iff fun area oi n n' hmem => (reliable_list_iff
    (A := Adds env.now s (floodScope s new (isAs new.key)) (some nbr) new area oi n) And.left (sameInstance_self ..)
    (not_older_self _ _ _) (fun hadds p => ?_) fun hadds p => ?_).trans ⟨fun h => ⟨h.1, h.2.1, h.2.2⟩,
      fun h => ⟨h.added, h.listed, h.others⟩⟩
  · rw [hmem, and_iff_right hadds, or_iff_left fun h => h.1 hadds]
    exact and_congr_right fun hp => by rw [hp]
  · rw [hmem, or_iff_right fun h => hadds h.1, and_iff_right hadds]

/-! ### Own LSAs -/

/-- An own LSA is added to the list, after some entries left it. -/
def AddsOwn (now : Int) (t : Ospf) (scope : Area → Oi → Bool) (L : Area → Oi → Nat → Prop) (new : LsaRef) (area : Area)
    (oi : Oi) (nbr : Nbr) : Prop :=
  Applies now t scope none new area oi nbr ∧ ¬Blocked t new nbr ∧
    ∀ p ∈ nbr.lsRxmt new.key, ¬L area oi p → Older now t.memory new p

/-- The condition for a neighbour when an own LSA is flooded that is not added to its list: a neighbour that is to get
it has it on the list, and an older instance leaves it. -/
structure KeepsOwn (now : Int) (t : Ospf) (scope : Area → Oi → Bool) (L : Area → Oi → Nat → Prop) (new : LsaRef)
    (area : Area) (oi : Oi) (nbr : Nbr) : Prop where
  listed : ¬AddsOwn now t scope L new area oi nbr → Applies now t scope none new area oi nbr →
    ∃ p ∈ nbr.lsRxmt new.key, SameInstance now t.memory new p ∧ ¬L area oi p
  others : ¬AddsOwn now t scope L new area oi nbr → ∀ p ∈ nbr.lsRxmt new.key, Older now t.memory new p → L area oi p

/-- The scope of a flooding does not depend on the neighbours. -/
theorem floodScope_same (domain : Bool) (harea : area.Same area') (hoi : oi.Same oi') :
    floodScope s lsa domain area' oi' = floodScope s lsa domain area oi := by
  rw [floodScope]
  split
  · rw [inAs, inAs, takesExternal, takesExternal, harea.externalRouting, harea.pointer, hoi.type]
  · rw [inArea, inArea, harea.pointer, harea.backbone, hoi.type, hoi.pointer]

theorem adds_of_delete {domain : Bool} (harea : area.Same area') (hoi : oi.Same oi')
    (h : DeleteStep new.key L area oi nbr nbr') :
    Adds now s (floodScope s new domain) none new area' oi' nbr' ↔
    AddsOwn now s (floodScope s new domain) L new area oi nbr := by
  obtain ⟨⟨t, rfl⟩, hmem⟩ := h
  have htakes : Takes now s.memory none new { nbr with lsRxmt := t } ↔ Takes now s.memory none new nbr :=
    ⟨fun h => { h with }, fun h => { h with }⟩
  have hblocked : Blocked s new { nbr with lsRxmt := t } ↔ Blocked s new nbr :=
    ⟨fun h => { h with }, fun h => { h with }⟩
  rw [Adds, AddsOwn, Applies, Applies, floodScope_same domain harea hoi, hoi.enabled, htakes, hblocked]
  simp [hmem]

theorem own_reliable_iff {t : Ospf} (domain : Bool) (hdel : Nbrs (DeleteStep new.key L) s t) :
    Reliable now t (floodScope t new domain) none new s (floodThroughOis now t (floodScope t new domain) none new).1 ↔
      ∀ area ∈ s.areas, ∀ oi ∈ area.oiflist, ∀ nbr ∈ oi.nbrs,
        KeepsOwn now t (floodScope t new domain) L new area oi nbr := by
  have hstep : Nbrs (fun area oi n n' => ∀ p, p ∈ n'.lsRxmt new.key ↔
      (AddsOwn now t (floodScope t new domain) L new area oi n ∧ p = new.address) ∨
      (¬AddsOwn now t (floodScope t new domain) L new area oi n ∧ p ∈ n.lsRxmt new.key ∧ ¬L area oi p))
      s (floodThroughOis now t (floodScope t new domain) none new).1 := by
    refine hdel.trans floodThroughOis_nbrs ?_
    intro area area' oi oi' n n1 n2 harea hoi hdeleted hflooded p
    rw [hflooded, adds_of_delete harea hoi hdeleted, hdeleted.2]
  have hmry := (floodThroughOis_alike now t (floodScope t new domain) none new).memory
  rw [Reliable]
  refine hstep.iff fun area oi n n' hmem => (reliable_list_iff
    (A := AddsOwn now t (floodScope t new domain) L new area oi n) And.left (sameInstance_self ..)
    (not_older_self _ _ _) (fun hadds p => ?_) fun hadds p => ?_).trans ⟨fun h => ⟨h.2.1, h.2.2⟩,
      fun h => ⟨fun _ => not_false, h.listed, h.others⟩⟩
  · rw [hmem, and_iff_right hadds, or_iff_left fun h => h.1 hadds, and_iff_left not_false]
  · rw [hmem, or_iff_right fun h => hadds h.1, and_iff_right hadds]

/-- After `ospf_lsa_flush_area` set the age. -/
def flushed (now : Int) (s : Ospf) (lsa : LsaRef) : Ospf := s.set lsa ({ · with lsAge := 3600, tvRecv := now })

/-- Flooding is reliable exactly if the condition holds: for a received LSA that does not come too early, for an own one
that is installed and flooded, and for one that is flushed. -/
theorem flooding_reliable (env : Env) (s : Ospf) (new : LsaRef) :
    (∀ nbr : Sender, tooEarly env.now s (copyOf s new) = false →
      (Reliable env.now s (floodScope s new (isAs new.key)) (some nbr) new s
        (ospfFlood env s nbr (copyOf s new) new).1 ↔
        ∀ area ∈ s.areas, ∀ oi ∈ area.oiflist, ∀ onbr ∈ oi.nbrs, KeepsReceived env s nbr new area oi onbr)) ∧
    (∀ (domain : Bool) (oi : Option Nat),
      (Reliable env.now (ospfLsaInstall env s oi new).1
        (floodScope (ospfLsaInstall env s oi new).1 new domain) none new s
          (originate env s domain oi new) ↔
        ∀ area ∈ s.areas, ∀ o ∈ area.oiflist, ∀ nbr ∈ o.nbrs, KeepsOwn env.now (ospfLsaInstall env s oi new).1
          (floodScope (ospfLsaInstall env s oi new).1 new domain) (Replaced env.now s new) new area o nbr)) ∧
    ∀ domain : Bool,
      (Reliable env.now (flushed env.now s new) (floodScope (flushed env.now s new) new domain) none new s
          (ospfLsaFlush env.now s domain new) ↔
        ∀ area ∈ s.areas, ∀ oi ∈ area.oiflist, ∀ nbr ∈ oi.nbrs, KeepsOwn env.now (flushed env.now s new)
          (floodScope (flushed env.now s new) new domain) (fun _ _ _ => False) new area oi nbr) := by
  refine ⟨received_reliable_iff env s new, fun domain oi => ?_, fun domain => ?_⟩
  · rw [← own_reliable_iff domain (install_nbrs env s oi new), originate]
    cases domain with
    | false => rfl
    | true => rfl
  · have hsame : Nbrs (DeleteStep new.key fun _ _ _ => False) s (flushed env.now s new) :=
      nbrs_of_areas rfl fun _ _ _ => deleteStep_rfl fun _ => not_false
    rw [← own_reliable_iff domain hsame]
    cases domain with
    | false => rfl
    | true => rfl

/-- The router-LSA of another router. -/
def routerKey : LsaKey := ⟨1, 0x0a000003, 0x0a000003⟩

/-- A neighbour on each of two interfaces of the backbone. The database has an instance of the LSA with the sequence
number 0x80000005, and another one is to come. -/
def twoNeighbours (lsSeqnum : UInt32) (lsAge : UInt16) : Ospf where
  routerId := 0x0a000009
  areas := [{ pointer := 0, lsdb := update (fun _ => none) routerKey (some 0),
              oiflist := [{ pointer := 0, nbrs := [{ routerId := 0x0a000001, address := 0x0a000001, state := .full }] },
                          { pointer := 1, nbrs := [{ routerId := 0x0a000002, address := 0x0a000002, state := .full }] }
                         ] }]
  memory := fun lsa =>
    if lsa.address = 0 then { lsSeqnum := 0x80000005, lsAge := 10, area := some 0 }
    else { lsSeqnum, lsAge, area := some 0 }

/-- Two seconds after the start. -/
def afterTwoSeconds : Env := { now := 2000000, checksum := fun _ i => i.checksum, installs := true }

/-- The neighbour on the first interface. -/
def firstNeighbour : Sender := { routerId := 0x0a000001, area := 0, oi := 0 }

theorem nbr_cases (lsSeqnum : UInt32) (lsAge : UInt16) :
    ∀ area ∈ (twoNeighbours lsSeqnum lsAge).areas, ∀ oi ∈ area.oiflist, ∀ nbr ∈ oi.nbrs,
      (nbr.routerId = 0x0a000001 ∧ nbr.lsRxmt = fun _ => none) ∨ nbr.routerId = 0x0a000002 := by
  simp only [twoNeighbours, mem_cons, not_mem_nil, or_false, forall_eq, forall_eq_or_imp]
  exact ⟨.inl ⟨trivial, trivial⟩, .inr trivial⟩

/-- The second neighbour is to get the LSA. -/
theorem adds_second (lsSeqnum : UInt32) (lsAge : UInt16) :
    ∀ area ∈ (twoNeighbours lsSeqnum lsAge).areas, ∀ oi ∈ area.oiflist, ∀ nbr ∈ oi.nbrs, nbr.routerId = 0x0a000002 →
      Adds 2000000 (twoNeighbours lsSeqnum lsAge) (floodScope (twoNeighbours lsSeqnum lsAge) ⟨routerKey, 1⟩ false)
        (some firstNeighbour) ⟨routerKey, 1⟩ area oi nbr := by
  simp only [twoNeighbours, mem_cons, not_mem_nil, or_false, forall_eq, forall_eq_or_imp]
  constructor
  · rintro ⟨⟩
  · refine fun _ => ⟨⟨rfl, rfl, ?_, ?_, ?_, ?_⟩, ?_, ?_⟩
    · decide
    · intro h
      exact absurd h (by decide)
    · rintro ⟨⟩
    · rfl
    · rintro ⟨⟨⟩⟩
    · rintro p ⟨⟩

/-- A more recent instance with a higher sequence number. -/
theorem flooding_reliable_next : Reliable 2000000 (twoNeighbours 0x80000006 1)
    (floodScope (twoNeighbours 0x80000006 1) ⟨routerKey, 1⟩ false) (some firstNeighbour) ⟨routerKey, 1⟩
    (twoNeighbours 0x80000006 1)
    (ospfFlood afterTwoSeconds (twoNeighbours 0x80000006 1) firstNeighbour (some ⟨routerKey, 0⟩) ⟨routerKey, 1⟩).1 := by
  refine ((flooding_reliable afterTwoSeconds (twoNeighbours 0x80000006 1) ⟨routerKey, 1⟩).1 firstNeighbour
    (by decide)).2 ?_
  intro area harea oi hoi nbr hnbr
  rcases nbr_cases _ _ area harea oi hoi nbr hnbr with ⟨hfirst, hlist⟩ | hsecond
  · have hsnd : comesFrom (some firstNeighbour) ⟨routerKey, 1⟩ nbr = true := decide_eq_true hfirst.symm
    refine ⟨fun hadds => ?_, fun _ happlies => ?_, fun _ p hp => ?_⟩
    · rw [hadds.1.2.2.sender] at hsnd
      cases hsnd
    · rw [happlies.2.2.sender] at hsnd
      cases hsnd
    · rw [hlist] at hp
      cases hp
  · have hadds := adds_second _ _ area harea oi hoi nbr hnbr hsecond
    refine ⟨fun _ hleaves => ?_, fun hnot => absurd hadds hnot, fun hnot => absurd hadds hnot⟩
    rcases hleaves with ⟨old, hold, -, hseq⟩ | ⟨-, old, hold, -, hseq⟩
    · obtain rfl : LsaRef.mk routerKey 0 = old := Option.mem_some_iff.1 hold
      exact absurd hseq (by decide)
    · obtain rfl : LsaRef.mk routerKey 0 = old := Option.mem_some_iff.1 hold
      exact absurd hseq (by decide)

/-- The neighbour flushes the LSA with the sequence number that it has. -/
theorem flooding_reliable_flushed : ¬Reliable 2000000 (twoNeighbours 0x80000005 3600)
    (floodScope (twoNeighbours 0x80000005 3600) ⟨routerKey, 1⟩ false) (some firstNeighbour) ⟨routerKey, 1⟩
    (twoNeighbours 0x80000005 3600)
    (ospfFlood afterTwoSeconds (twoNeighbours 0x80000005 3600) firstNeighbour (some ⟨routerKey, 0⟩)
      ⟨routerKey, 1⟩).1 := by
  intro h
  have hkeeps := (received_reliable_iff afterTwoSeconds (twoNeighbours 0x80000005 3600) ⟨routerKey, 1⟩ firstNeighbour
    (by decide)).1 h _ (mem_cons_self) _ (mem_cons_of_mem _ mem_cons_self) _ mem_cons_self
  refine hkeeps.added (adds_second _ _ _ mem_cons_self _ (mem_cons_of_mem _ mem_cons_self) _ mem_cons_self rfl) ?_
  exact .inl ⟨⟨routerKey, 0⟩, rfl, rfl, rfl⟩

end Tarpan.Ospfd.Flood
