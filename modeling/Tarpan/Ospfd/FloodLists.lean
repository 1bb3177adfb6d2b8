/-
The retransmission lists after flooding. Neighbour by neighbour, it is said what flooding adds and what the instance of
the database takes away; every neighbour that is to get the new instance then has it on its list exactly if the
condition holds.
-/
import Mathlib.Data.List.Forall2
import Tarpan.Ospfd.Flood

namespace Tarpan.Ospfd.Flood

open List Function NsmState

/-! ## Lists in correspondence -/

section Correspondence
variable {α β γ : Type} {R : α → β → Prop} {S : β → γ → Prop} {T : α → γ → Prop} {l : List α} {l' : List β}
  {l'' : List γ}

theorem forall₂_trans (hRST : ∀ a b c, R a b → S b c → T a c) (h : Forall₂ R l l') (h' : Forall₂ S l' l'') :
    Forall₂ T l l'' := by
  induction h generalizing l'' with
  | nil =>
    cases h'
    exact .nil
  | cons hab _ ih =>
    cases h' with
    | cons hbc hrest => exact .cons (hRST _ _ _ hab hbc) (ih hrest)

/-- A property of pairs that is one of the left elements. -/
theorem forall₂_iff {Q : α → β → Prop} {P : α → Prop} (hRQ : ∀ a b, R a b → (Q a b ↔ P a)) (h : Forall₂ R l l') :
    Forall₂ Q l l' ↔ ∀ a ∈ l, P a := by
  induction h with
  | nil => simp
  | cons hab _ ih => rw [forall₂_cons, hRQ _ _ hab, ih, forall_mem_cons]

end Correspondence

variable {now : Int} {s s' s1 s2 : Ospf} {inbr : Option Sender} {lsa old new : LsaRef} {nbr nbr' : Nbr}
  {area area' : Area}
  {oi oi' : Oi} {m m' : Memory} {key : LsaKey} {a : Option Nat} {R R' R'' : Area → Oi → Nbr → Nbr → Prop}
  {scope : Area → Oi → Bool}

/-- What flooding does not change of an area. -/
structure Area.Same (area area' : Area) : Prop where
  pointer : area'.pointer = area.pointer
  backbone : area'.backbone = area.backbone
  externalRouting : area'.externalRouting = area.externalRouting

/-- What flooding does not change of an interface. -/
structure Oi.Same (oi oi' : Oi) : Prop where
  pointer : oi'.pointer = oi.pointer
  type : oi'.type = oi.type
  enabled : oi'.enabled = oi.enabled

theorem Area.same_rfl : area.Same area := ⟨rfl, rfl, rfl⟩
theorem Oi.same_rfl : oi.Same oi := ⟨rfl, rfl, rfl⟩

/-- Each neighbour before and after. -/
def Nbrs (R : Area → Oi → Nbr → Nbr → Prop) (s s' : Ospf) : Prop :=
  Forall₂ (fun area area' => area.Same area' ∧
    Forall₂ (fun oi oi' => oi.Same oi' ∧
      Forall₂ (R area oi) oi.nbrs oi'.nbrs) area.oiflist area'.oiflist) s.areas s'.areas

theorem Nbrs.trans (h : Nbrs R s s1) (h' : Nbrs R' s1 s2)
    (hR : ∀ area area' oi oi' nbr nbr1 nbr2, area.Same area' → oi.Same oi' → R area oi nbr nbr1 →
      R' area' oi' nbr1 nbr2 →
      R'' area oi nbr nbr2) : Nbrs R'' s s2 := by
  refine forall₂_trans ?_ h h'
  rintro area area1 area2 ⟨harea, hois⟩ ⟨harea', hois'⟩
  refine ⟨⟨harea'.1.trans harea.1, harea'.2.trans harea.2, harea'.3.trans harea.3⟩, forall₂_trans ?_ hois hois'⟩
  rintro oi oi1 oi2 ⟨hoi, hnbrs⟩ ⟨hoi', hnbrs'⟩
  refine ⟨⟨hoi'.1.trans hoi.1, hoi'.2.trans hoi.2, hoi'.3.trans hoi.3⟩, forall₂_trans ?_ hnbrs hnbrs'⟩
  exact fun nbr nbr1 nbr2 => hR area area1 oi oi1 nbr nbr1 nbr2 harea hoi

/-- A property of the neighbours after that is one of the neighbours before. -/
theorem Nbrs.iff {Q : Area → Oi → Nbr → Nbr → Prop} {P : Area → Oi → Nbr → Prop} (h : Nbrs R s s')
    (hRQ : ∀ area oi nbr nbr', R area oi nbr nbr' → (Q area oi nbr nbr' ↔ P area oi nbr)) :
    Nbrs Q s s' ↔ ∀ area ∈ s.areas, ∀ oi ∈ area.oiflist, ∀ nbr ∈ oi.nbrs, P area oi nbr := by
  refine forall₂_iff ?_ h
  rintro area area' ⟨harea, hois⟩
  rw [and_iff_right harea]
  refine forall₂_iff ?_ hois
  rintro oi oi' ⟨hoi, hnbrs⟩
  rw [and_iff_right hoi]
  exact forall₂_iff (hRQ area oi) hnbrs

theorem nbrs_mapOis {f : Area → Oi → Oi} {g : Area → Oi → Nbr → Nbr} (hf : ∀ area (oi : Oi), oi.Same (f area oi))
    (hnbrs : ∀ area oi, (f area oi).nbrs = oi.nbrs.map (g area oi))
    (hR : ∀ area oi nbr, R area oi nbr (g area oi nbr)) :
    Nbrs R s (s.mapOis f) := by
  refine forall₂_map_right_iff.2 (forall₂_same.2 fun area _ => ⟨⟨rfl, rfl, rfl⟩, ?_⟩)
  refine forall₂_map_right_iff.2 (forall₂_same.2 fun oi _ => ⟨hf area oi, ?_⟩)
  rw [hnbrs]
  exact forall₂_map_right_iff.2 (forall₂_same.2 fun nbr _ => hR area oi nbr)

theorem nbrs_of_areas (h : s'.areas = s.areas) (hR : ∀ area oi nbr, R area oi nbr nbr) : Nbrs R s s' := by
  rw [Nbrs, h]
  refine forall₂_same.2 fun area _ => ⟨area.same_rfl, forall₂_same.2 fun oi _ => ⟨oi.same_rfl, ?_⟩⟩
  exact forall₂_same.2 fun nbr _ => hR area oi nbr

/-! ## What flooding adds -/

/-- Flooding applies to the neighbour: its state is Exchange or above, it has requested no instance or an older one, it
knows opaque LSAs if it is one, and it is not the one that the LSA comes from. -/
structure Takes (now : Int) (m : Memory) (inbr : Option Sender) (lsa : LsaRef) (nbr : Nbr) : Prop where
  state : exchange.toNat ≤ nbr.state.toNat
  request : nbr.state.toNat < full.toNat → ∀ lsReq ∈ lookup nbr.lsReq lsa.key,
    moreRecent now m (some lsReq) (some lsa) < 0
  option : isOpaque lsa.key = true → nbr.optionO = true
  sender : comesFrom inbr lsa nbr = false

/-- An own opaque LSA, while their origination is blocked. -/
structure Blocked (s : Ospf) (lsa : LsaRef) (nbr : Nbr) : Prop where
  type : isOpaque lsa.key = true
  blocked : s.opaqueBlocked = true
  self : (s.memory lsa).self = true
  state : nbr.state = .full

theorem retransmitAdd_lsRxmt : (ospfLsRetransmitAdd now m nbr lsa).lsRxmt lsa.key =
    if moreRecent now m (lookup nbr.lsRxmt lsa.key) (some lsa) < 0 then some lsa.address else nbr.lsRxmt lsa.key := by
  rw [ospfLsRetransmitAdd]
  split
  · exact update_self ..
  · rfl

theorem examineRequest_fields (now : Int) (m : Memory) (lsa : LsaRef) (nbr : Nbr) :
    (examineRequest now m lsa nbr).1.lsRxmt = nbr.lsRxmt ∧ (examineRequest now m lsa nbr).1.optionO = nbr.optionO ∧
      (examineRequest now m lsa nbr).1.state = nbr.state ∧
        (examineRequest now m lsa nbr).1.routerId = nbr.routerId := by
  rw [examineRequest]
  cases lookup nbr.lsReq lsa.key with
  | none => exact ⟨rfl, rfl, rfl, rfl⟩
  | some lsReq =>
    dsimp only
    split
    · exact ⟨rfl, rfl, rfl, rfl⟩
    split <;> exact ⟨rfl, rfl, rfl, rfl⟩

theorem examineRequest_goes_on : (examineRequest now m lsa nbr).2 = true ↔
    ∀ lsReq ∈ lookup nbr.lsReq lsa.key, moreRecent now m (some lsReq) (some lsa) < 0 := by
  rw [examineRequest]
  cases lookup nbr.lsReq lsa.key with
  | none => simp
  | some lsReq =>
    simp only [Option.mem_some_iff, forall_eq']
    split
    · simp only [Bool.false_eq_true, false_iff]
      omega
    split
    · simp only [Bool.false_eq_true, false_iff]
      omega
    · simp only [true_iff]
      omega

theorem skipsOpaque_eq_false : skipsOpaque s lsa nbr = false ↔
    (isOpaque lsa.key = true → nbr.optionO = true) ∧ ¬Blocked s lsa nbr := by
  have hblocked : Blocked s lsa nbr ↔
      isOpaque lsa.key = true ∧ s.opaqueBlocked = true ∧ (s.memory lsa).self = true ∧ nbr.state = .full :=
    ⟨fun h => ⟨h.1, h.2, h.3, h.4⟩, fun h => ⟨h.1, h.2.1, h.2.2.1, h.2.2.2⟩⟩
  rw [hblocked, skipsOpaque]
  by_cases hopq : isOpaque lsa.key = true <;> simp [hopq]

/-- A neighbour that flooding applies to gets the LSA, unless it is blocked; the list of any other one stays. -/
theorem floodNbr_lsRxmt (now : Int) (s : Ospf) (inbr : Option Sender) (lsa : LsaRef) (nbr : Nbr) :
    (Takes now s.memory inbr lsa nbr → ¬Blocked s lsa nbr → (floodNbr now s inbr lsa nbr).1.lsRxmt lsa.key =
      if moreRecent now s.memory (lookup nbr.lsRxmt lsa.key) (some lsa) < 0 then some lsa.address
      else nbr.lsRxmt lsa.key) ∧
    (¬(Takes now s.memory inbr lsa nbr ∧ ¬Blocked s lsa nbr) →
      (floodNbr now s inbr lsa nbr).1.lsRxmt lsa.key = nbr.lsRxmt lsa.key) := by
  rw [floodNbr]
  by_cases hst : nbr.state.toNat < exchange.toNat
  · rw [if_pos hst]
    exact ⟨fun h => absurd h.state (not_le.2 hst), fun _ => rfl⟩
  rw [if_neg hst]
  dsimp only
  -- the neighbour after a look at its requests
  generalize hexamined : (if nbr.state.toNat < full.toNat then examineRequest now s.memory lsa nbr
    else (nbr, true)) = examined
  have hflds : examined.1.lsRxmt = nbr.lsRxmt ∧ examined.1.optionO = nbr.optionO ∧ examined.1.state = nbr.state ∧
      examined.1.routerId = nbr.routerId := by
    rw [← hexamined]
    split
    · exact examineRequest_fields now s.memory lsa nbr
    · exact ⟨rfl, rfl, rfl, rfl⟩
  have hgoes : examined.2 = true ↔ (nbr.state.toNat < full.toNat → ∀ lsReq ∈ lookup nbr.lsReq lsa.key,
      moreRecent now s.memory (some lsReq) (some lsa) < 0) := by
    rw [← hexamined]
    split_ifs with hfull
    · rw [examineRequest_goes_on]
      exact ⟨fun h _ => h, fun h => h hfull⟩
    · exact iff_of_true rfl fun h => absurd h hfull
  obtain ⟨hrxmt, hoption, hst', hrtr⟩ := hflds
  have hskips : skipsOpaque s lsa examined.1 = skipsOpaque s lsa nbr := by
    rw [skipsOpaque, skipsOpaque, hoption, hst']
  have hcomes : comesFrom inbr lsa examined.1 = comesFrom inbr lsa nbr := by
    rw [comesFrom, comesFrom, hrtr]
  rw [hskips, hcomes]
  by_cases hexam : examined.2 = true
  · rw [if_neg (by simp [hexam])]
    by_cases hskip : skipsOpaque s lsa nbr = true
    · rw [if_pos hskip, hrxmt]
      refine ⟨fun h hnot => ?_, fun _ => rfl⟩
      rw [skipsOpaque_eq_false.2 ⟨h.option, hnot⟩] at hskip
      cases hskip
    · rw [if_neg hskip]
      obtain ⟨hopt, hnot⟩ := skipsOpaque_eq_false.1 (Bool.eq_false_of_not_eq_true hskip)
      by_cases hfrom : comesFrom inbr lsa nbr = true
      · rw [if_pos hfrom, hrxmt]
        refine ⟨fun h => ?_, fun _ => rfl⟩
        rw [h.sender] at hfrom
        cases hfrom
      · rw [if_neg hfrom, retransmitAdd_lsRxmt, hrxmt]
        have htakes : Takes now s.memory inbr lsa nbr :=
          ⟨not_lt.1 hst, hgoes.1 hexam, hopt, Bool.eq_false_of_not_eq_true hfrom⟩
        exact ⟨fun _ _ => rfl, fun h => absurd ⟨htakes, hnot⟩ h⟩
  · rw [if_pos (by simp [hexam]), hrxmt]
    exact ⟨fun h => absurd (hgoes.2 h.request) hexam, fun _ => rfl⟩

section
variable (now : Int) (s : Ospf) (scope : Area → Oi → Bool) (inbr : Option Sender) (lsa : LsaRef) (area : Area) (oi : Oi)

/-- The interface lets the neighbours take part. -/
def Applies (nbr : Nbr) : Prop := scope area oi = true ∧ oi.enabled = true ∧ Takes now s.memory inbr lsa nbr

/-- An instance of the LSA before the new one. -/
def Older (m : Memory) (new : LsaRef) (p : Nat) : Prop := moreRecent now m (some ⟨new.key, p⟩) (some new) < 0

/-- The new instance is added to the list of the neighbour. -/
def Adds (nbr : Nbr) : Prop :=
  Applies now s scope inbr lsa area oi nbr ∧ ¬Blocked s lsa nbr ∧ ∀ p ∈ nbr.lsRxmt lsa.key, Older now s.memory lsa p

/-- The list of a neighbour after flooding. -/
def FloodStep (nbr nbr' : Nbr) : Prop :=
  ∀ p, p ∈ nbr'.lsRxmt lsa.key ↔ (Adds now s scope inbr lsa area oi nbr ∧ p = lsa.address) ∨
    (¬Adds now s scope inbr lsa area oi nbr ∧ p ∈ nbr.lsRxmt lsa.key)

theorem floodThroughInterface_same : oi.Same (ospfFloodThroughInterface now s inbr lsa oi).1 ∧
    (ospfFloodThroughInterface now s inbr lsa oi).1.address = oi.address ∧
    (ospfFloodThroughInterface now s inbr lsa oi).1.nbrs =
      if oi.enabled then oi.nbrs.map fun nbr => (floodNbr now s inbr lsa nbr).1 else oi.nbrs := by
  rw [ospfFloodThroughInterface]
  by_cases hen : oi.enabled
  · rw [if_neg (by simp [hen])]
    have hmap : (oi.nbrs.map (floodNbr now s inbr lsa)).map Prod.fst =
        oi.nbrs.map fun nbr => (floodNbr now s inbr lsa nbr).1 := by
      rw [map_map]
      rfl
    dsimp only
    split
    · exact ⟨⟨rfl, rfl, rfl⟩, rfl, hmap⟩
    split <;> exact ⟨⟨rfl, rfl, rfl⟩, rfl, hmap⟩
  · rw [if_pos (by simp [hen]), if_neg hen]
    exact ⟨oi.same_rfl, rfl, rfl⟩

/-- What the loops over the interfaces do to one of them. -/
def floodOi : Oi := if scope area oi then (ospfFloodThroughInterface now s inbr lsa oi).1 else oi

theorem floodOi_same : oi.Same (floodOi now s scope inbr lsa area oi) ∧
    (floodOi now s scope inbr lsa area oi).address = oi.address ∧ (floodOi now s scope inbr lsa area oi).nbrs =
      if scope area oi && oi.enabled then oi.nbrs.map fun nbr => (floodNbr now s inbr lsa nbr).1 else oi.nbrs := by
  obtain ⟨hsame, haddress, hnbrs⟩ := floodThroughInterface_same now s inbr lsa oi
  rw [floodOi]
  by_cases hscope : scope area oi
  · rw [if_pos hscope, hscope]
    exact ⟨hsame, haddress, hnbrs⟩
  · rw [if_neg hscope, if_neg (by simp [hscope])]
    exact ⟨oi.same_rfl, rfl, rfl⟩

end

theorem lookup_older : moreRecent now m (lookup nbr.lsRxmt lsa.key) (some lsa) < 0 ↔
    ∀ p ∈ nbr.lsRxmt lsa.key, Older now m lsa p := by
  rw [lookup]
  cases nbr.lsRxmt lsa.key with
  | none => exact iff_of_true (show (-1 : Int) < 0 by decide) (by simp)
  | some p => exact ⟨fun h q hq => Option.mem_some_iff.1 hq ▸ h, fun h => h p rfl⟩

theorem floodStep_of_kept (h : ¬Adds now s scope inbr lsa area oi nbr)
    (hrxmt : nbr'.lsRxmt lsa.key = nbr.lsRxmt lsa.key) : FloodStep now s scope inbr lsa area oi nbr nbr' := by
  intro p
  rw [hrxmt]
  exact ⟨fun hp => .inr ⟨h, hp⟩, fun hp => hp.elim (fun hadds => absurd hadds.1 h) And.right⟩

theorem floodNbr_step (hscope : scope area oi = true) (hen : oi.enabled = true) :
    FloodStep now s scope inbr lsa area oi nbr (floodNbr now s inbr lsa nbr).1 := by
  obtain ⟨hadd, hkept⟩ := floodNbr_lsRxmt now s inbr lsa nbr
  by_cases htakes : Takes now s.memory inbr lsa nbr ∧ ¬Blocked s lsa nbr
  · have hrxmt := hadd htakes.1 htakes.2
    by_cases holder : ∀ p ∈ nbr.lsRxmt lsa.key, Older now s.memory lsa p
    · have hadds : Adds now s scope inbr lsa area oi nbr := ⟨⟨hscope, hen, htakes.1⟩, htakes.2, holder⟩
      rw [if_pos (lookup_older.2 holder)] at hrxmt
      intro p
      rw [hrxmt, Option.mem_some_iff]
      exact ⟨fun hp => .inl ⟨hadds, hp.symm⟩, fun hp => hp.elim (fun hp => hp.2.symm) fun hp => absurd hadds hp.1⟩
    · rw [if_neg (mt lookup_older.1 holder)] at hrxmt
      exact floodStep_of_kept (fun h => holder h.2.2) hrxmt
  · exact floodStep_of_kept (fun h => htakes ⟨h.1.2.2, h.2.1⟩) (hkept htakes)

theorem floodThroughOis_nbrs : Nbrs (FloodStep now s scope inbr lsa) s (floodThroughOis now s scope inbr lsa).1 := by
  refine nbrs_mapOis
    (g := fun area oi nbr => if scope area oi && oi.enabled then (floodNbr now s inbr lsa nbr).1 else nbr)
    (fun area oi => (floodOi_same now s scope inbr lsa area oi).1) ?_ ?_
  · intro area oi
    refine (floodOi_same now s scope inbr lsa area oi).2.2.trans ?_
    split
    · rfl
    · rw [map_id']
  · intro area oi nbr
    split_ifs with hboth
    · obtain ⟨hscope, hen⟩ := Bool.and_eq_true_iff.1 hboth
      exact floodNbr_step hscope hen
    · exact floodStep_of_kept (fun h => hboth (by rw [h.1.1, h.1.2.1]; rfl)) rfl

/-! ## What the instance of the database takes away -/

section
variable (m : Memory) (a : Option Nat) (old : LsaRef)

/-- An interface whose lists the copy leaves. -/
def covers (key : LsaKey) (area : Area) (oi : Oi) : Bool := oi.enabled && (isAs key || decide (a = some area.pointer))

/-- The list of a neighbour after a deletion. -/
def DeleteStep (key : LsaKey) (L : Area → Oi → Nat → Prop) (area : Area) (oi : Oi) (nbr nbr' : Nbr) : Prop :=
  (∃ t, nbr' = { nbr with lsRxmt := t }) ∧ ∀ p, p ∈ nbr'.lsRxmt key ↔ p ∈ nbr.lsRxmt key ∧ ¬L area oi p

theorem deleteNbr_lsRxmt (nbr : Nbr) : (∃ t, deleteNbr m old nbr = { nbr with lsRxmt := t }) ∧
    ∀ p, p ∈ (deleteNbr m old nbr).lsRxmt old.key ↔
      p ∈ nbr.lsRxmt old.key ∧ (m ⟨old.key, p⟩).lsSeqnum ≠ (m old).lsSeqnum := by
  rw [deleteNbr, lookup]
  cases hlist : nbr.lsRxmt old.key with
  | none =>
    refine ⟨⟨_, rfl⟩, fun p => ?_⟩
    simp [hlist]
  | some q =>
    dsimp only [Option.map_some]
    by_cases hseq : (m ⟨old.key, q⟩).lsSeqnum = (m old).lsSeqnum
    · have hsome : (lookup nbr.lsRxmt old.key).isSome := by simp [lookup, hlist]
      rw [if_pos hseq, ospfLsRetransmitDelete, if_pos hsome]
      refine ⟨⟨_, rfl⟩, fun p => ?_⟩
      have hnone : lsdbDelete nbr.lsRxmt ⟨old.key, q⟩ old.key = none := by
        rw [lsdbDelete, if_pos hlist]
        exact update_self ..
      dsimp only
      rw [hnone]
      refine iff_of_false (by simp) ?_
      rintro ⟨hp, hne⟩
      rw [← Option.mem_some_iff.1 hp] at hne
      exact hne hseq
    · rw [if_neg hseq]
      refine ⟨⟨_, rfl⟩, fun p => ?_⟩
      rw [hlist, iff_self_and]
      intro hp
      rwa [← Option.mem_some_iff.1 hp]

theorem deleteStep_rfl {L : Area → Oi → Nat → Prop} (h : ∀ p, ¬L area oi p) : DeleteStep key L area oi nbr nbr :=
  ⟨⟨_, rfl⟩, fun p => (and_iff_left (h p)).symm⟩

/-- An entry that a deletion of the copy takes away. -/
def Taken (area : Area) (oi : Oi) (p : Nat) : Prop :=
  covers a old.key area oi = true ∧ (m ⟨old.key, p⟩).lsSeqnum = (m old).lsSeqnum

/-- What the deletions do to an interface. -/
def deleteOi (area : Area) (oi : Oi) : Oi :=
  if covers a old.key area oi then { oi with nbrs := oi.nbrs.map (deleteNbr m old) } else oi

theorem deleteCopy_eq (s : Ospf) (a : Option Nat) (old : LsaRef) :
    deleteCopy s a old = s.mapOis (deleteOi s.memory a old) := by
  rw [deleteCopy]
  have hois : ∀ (f g : Area → Oi → Oi), (∀ area oi, f area oi = g area oi) → s.mapOis f = s.mapOis g := by
    intro f g h
    rw [funext fun area => funext (h area)]
  split_ifs with has
  · refine hois _ _ fun area oi => ?_
    rw [ospfLsRetransmitDeleteNbrIf, deleteOi, covers, has, Bool.true_or, Bool.and_true]
  refine hois _ _ fun area oi => ?_
  rw [deleteOi, covers, Bool.eq_false_of_not_eq_true has, Bool.false_or]
  by_cases ha : a = some area.pointer
  · rw [if_pos ha, ospfLsRetransmitDeleteNbrIf, decide_eq_true ha, Bool.and_true]
  · rw [if_neg ha, decide_eq_false ha, Bool.and_false]
    rfl

theorem deleteOi_same (area : Area) (oi : Oi) :
    oi.Same (deleteOi m a old area oi) ∧ (deleteOi m a old area oi).address = oi.address := by
  rw [deleteOi]
  split
  · exact ⟨⟨rfl, rfl, rfl⟩, rfl⟩
  · exact ⟨oi.same_rfl, rfl⟩

end

theorem deleteCopy_nbrs (s : Ospf) (a : Option Nat) (old : LsaRef) :
    Nbrs (DeleteStep old.key (Taken s.memory a old)) s (deleteCopy s a old) := by
  rw [deleteCopy_eq]
  refine nbrs_mapOis (g := fun area oi nbr => if covers a old.key area oi then deleteNbr s.memory old nbr else nbr)
    (fun area oi => (deleteOi_same s.memory a old area oi).1) ?_ ?_
  · intro area oi
    rw [deleteOi]
    split
    · rfl
    · rw [map_id']
  · intro area oi nbr
    split_ifs with hcovers
    · obtain ⟨hflds, hmem⟩ := deleteNbr_lsRxmt s.memory old nbr
      refine ⟨hflds, fun p => ?_⟩
      rw [hmem, Taken, not_and, forall_prop_of_true hcovers]
    · exact deleteStep_rfl fun p h => hcovers h.1

end Tarpan.Ospfd.Flood
