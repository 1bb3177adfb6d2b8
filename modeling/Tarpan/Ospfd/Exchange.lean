/-
The exchange of databases and flooding share the databases and the requests of a neighbour. The exchange is modelled on
instances of LSAs, and flooding on pointers to them: here are the instances that the pointers lead to. What the exchange
looks up is the copy that flooding replaces, and what it requests flooding takes off the list when it arrives.
-/
import Tarpan.Ospfd.DbDesc
import Tarpan.Ospfd.Flood

namespace Tarpan.Ospfd.Flood

open Function

section
variable (m : Memory) (t : Table) (lsa : LsaRef)

/-- The instances that a table points to. -/
def instances : Lsdb := fun key => (lookup t key).map (lsaOf m)

theorem instances_lsdbAdd : instances m (lsdbAdd t lsa) = ospfLsdbAdd (instances m t) (lsaOf m lsa) := by
  have hkey : (lsaOf m lsa).data.key = lsa.key := rfl
  funext key
  rw [ospfLsdbAdd, hkey]
  by_cases h : key = lsa.key
  · subst h
    simp [instances, lookup, lsdbAdd]
  · simp [instances, lookup, lsdbAdd, h]

theorem instances_lsdbDelete : instances m (lsdbDelete t lsa) = ospfLsdbDelete (instances m t) (lsaOf m lsa) := by
  have hkey : (lsaOf m lsa).data.key = lsa.key := rfl
  have hhere : (instances m t lsa.key).any (·.address = (lsaOf m lsa).address) ↔ t lsa.key = some lsa.address := by
    rw [Option.any_eq_true]
    simp only [decide_eq_true_eq, instances, lookup, Option.map_map, Option.map_eq_some_iff]
    constructor
    · rintro ⟨_, ⟨a, ha, rfl⟩, rfl⟩
      exact ha
    · exact fun h => ⟨_, ⟨_, h, rfl⟩, rfl⟩
  unfold lsdbDelete ospfLsdbDelete
  rw [hkey]
  by_cases h : t lsa.key = some lsa.address
  · rw [if_pos h, if_pos (hhere.2 h)]
    funext key
    by_cases hk : key = lsa.key
    · subst hk
      simp [instances, lookup]
    · simp [instances, lookup, hk]
  · rw [if_neg h, if_neg (mt hhere.1 h)]

end

/-! ## What both see -/

/-- An area as the exchange sees it. -/
def Area.exchanged (s : Ospf) (area : Area) : OspfArea where
  stub := area.externalRouting = .stub
  lsdb := instances s.memory area.lsdb
  asLsdb := instances s.memory s.lsdb

/-- A neighbour as the exchange sees it, with the summary of what it is still told. -/
def Nbr.exchanged (m : Memory) (nbr : Nbr) (dbSum : Lsdb) (brk : Nat) : Ospfd.Nbr where
  optionO := nbr.optionO
  lsReq := instances m nbr.lsReq
  dbSum := dbSum
  brk := brk

variable {s : Ospf} {area : Area} {lsa : LsaRef} {now : Int} {m : Memory}

/-- The exchange compares a header with the copy in whose place flooding puts an instance that arrives. -/
theorem ospfLsaLookup_exchanged (htype : lsa.key.type ∈ [1, 2, 3, 4, 5, 7, 9, 10, 11])
    (harea : (s.areas.find? fun area => (s.memory lsa).area = some area.pointer) = some area) :
    ospfLsaLookup (area.exchanged s) lsa.key = (copyOf s lsa).map (lsaOf s.memory) := by
  have hptr : (s.memory lsa).area ≠ none := fun hnone => by
    have := List.find?_some harea
    simp [hnone] at this
  have hof : ofArea s lsa = !isAs lsa.key := by simp [ofArea, hptr]
  have hcopy : copyOf s lsa = if isAs lsa.key then lookup s.lsdb lsa.key else lookup area.lsdb lsa.key := by
    rw [copyOf, hof, harea]
    cases isAs lsa.key <;> rfl
  have hstore : ospfLsaLookup (area.exchanged s) lsa.key
      = if isAs lsa.key then instances s.memory s.lsdb lsa.key else instances s.memory area.lsdb lsa.key := by
    unfold ospfLsaLookup isAs
    simp only [List.mem_cons, List.not_mem_nil, or_false] at htype
    rcases htype with h | h | h | h | h | h | h | h | h <;> simp [h, Area.exchanged]
  rw [hcopy, hstore]
  cases isAs lsa.key <;> rfl

/-! ## What answers a request -/

theorem lookup_key {t : Table} {key : LsaKey} (h : lookup t key = some lsa) : lsa.key = key := by
  obtain ⟨_, _, rfl⟩ := Option.map_eq_some_iff.1 h
  rfl

/-- An instance answers the request for its LSA unless a more recent one is requested. -/
def Answers (now : Int) (m : Memory) (lsa : LsaRef) (requests : Lsdb) : Prop :=
  ospfLsaMoreRecent now (requests lsa.key) (some (lsaOf m lsa)) ≤ 0

instance (requests : Lsdb) : Decidable (Answers now m lsa requests) := inferInstanceAs (Decidable (_ ≤ _))

/-- The list without a request that an instance answers. -/
def answered (now : Int) (m : Memory) (lsa : LsaRef) (requests : Lsdb) : Lsdb :=
  if Answers now m lsa requests then update requests lsa.key none else requests

theorem answered_of_none {requests : Lsdb} (h : requests lsa.key = none) : answered now m lsa requests = requests := by
  unfold answered
  split_ifs
  · exact update_eq_self_iff.2 h.symm
  · rfl

theorem examineRequest_exchanged (onbr : Nbr) :
    instances m (examineRequest now m lsa onbr).1.lsReq = answered now m lsa (instances m onbr.lsReq) := by
  unfold examineRequest
  cases hlook : lookup onbr.lsReq lsa.key with
  | none => exact (answered_of_none (by simp [instances, hlook])).symm
  | some request =>
    have hkey : request.key = lsa.key := lookup_key hlook
    have hsome : instances m onbr.lsReq lsa.key = some (lsaOf m request) := by simp [instances, hlook]
    have hdel : instances m (lsdbDelete onbr.lsReq request) = update (instances m onbr.lsReq) lsa.key none := by
      have hself : (instances m onbr.lsReq request.key).any (·.address = request.address) := by
        simp [hkey, hsome, lsaOf]
      rw [instances_lsdbDelete, ospfLsdbDelete, ← hkey]
      exact if_pos hself
    have hret : Answers now m lsa (instances m onbr.lsReq) ↔ ¬ moreRecent now m (some request) (some lsa) > 0 := by
      rw [Answers, hsome, not_lt]
      rfl
    by_cases hnew : moreRecent now m (some request) (some lsa) > 0
    · rw [answered, if_neg (fun h => hret.1 h hnew)]
      simp [hnew]
    · rw [answered, if_pos (hret.2 hnew), ← hdel]
      simp only [if_neg hnew]
      split_ifs <;> rfl

section
variable (nbr : Nbr)

theorem examineRequest_optionO : (examineRequest now m lsa nbr).1.optionO = nbr.optionO := by
  unfold examineRequest
  dsimp only
  split <;> try split_ifs
  all_goals rfl

theorem exchanged_ospfLsRetransmitAdd (dbSum : Lsdb) (brk : Nat) :
    (ospfLsRetransmitAdd now m nbr lsa).exchanged m dbSum brk = nbr.exchanged m dbSum brk := by
  unfold ospfLsRetransmitAdd
  dsimp only
  split_ifs <;> rfl

end

/-- Flooding takes a request of the exchange off the list exactly when the LSA that is flooded answers it; the neighbour
is one with which databases are still exchanged. -/
theorem floodNbr_exchanged (inbr : Option Sender) (onbr : Nbr) (hfrom : NsmState.exchange.toNat ≤ onbr.state.toNat)
    (hto : onbr.state.toNat < NsmState.full.toNat) (dbSum : Lsdb) (brk : Nat) :
    (floodNbr now s inbr lsa onbr).1.exchanged s.memory dbSum brk =
      { onbr.exchanged s.memory dbSum brk with
        lsReq := answered now s.memory lsa (instances s.memory onbr.lsReq) } := by
  have hexamined : (examineRequest now s.memory lsa onbr).1.exchanged s.memory dbSum brk =
      { onbr.exchanged s.memory dbSum brk with
        lsReq := answered now s.memory lsa (instances s.memory onbr.lsReq) } := by
    rw [Nbr.exchanged, examineRequest_exchanged, examineRequest_optionO]
    rfl
  rw [← hexamined]
  unfold floodNbr
  rw [if_neg (by omega), if_pos hto]
  dsimp only
  split_ifs <;> simp only [exchanged_ospfLsRetransmitAdd]

end Tarpan.Ospfd.Flood
