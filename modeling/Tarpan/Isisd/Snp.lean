/-
Complete sequence number packets of IS-IS (isisd/isis_lsp.c, isisd/isis_pdu.c). Each entry is compared with the LSP in
the database; the flags of the circuit then say whether the own copy is sent (SRM) or the other one asked for (SSN).
-/
import Tarpan.Base.Entries
import Mathlib.Data.List.Sort

namespace Tarpan.Isisd

open Base Function List

/-- The eight octets of an LSP id, which are compared as numbers. -/
abbrev LspId := BitVec 64

/-- The first six octets. -/
def LspId.sysId (id : LspId) : BitVec 48 := id.extractLsb' 16 48

/-- What an entry tells of an LSP, in host order. -/
structure LspHeader where
  seqNum : UInt32
  checksum : UInt16
  remLifetime : UInt16

inductive LspCompare where
  | equal
  | newer
  | older
  deriving DecidableEq

/-- Equal in sequence number, checksum, and whether they are expired. -/
def LspHeader.Same (lsp values : LspHeader) : Prop :=
  lsp.seqNum = values.seqNum ∧ lsp.checksum = values.checksum ∧ (lsp.remLifetime = 0 ↔ values.remLifetime = 0)

instance (lsp values : LspHeader) : Decidable (lsp.Same values) := inferInstanceAs (Decidable (_ ∧ _ ∧ _))

def lspCompare (lsp values : LspHeader) : LspCompare :=
  if lsp.Same values then .equal else if lsp.seqNum ≤ values.seqNum then .newer else .older

/-- An LSP with the flags of the circuit. -/
structure Lsp where
  header : LspHeader
  srm : Bool
  ssn : Bool

/-- The database of a level: the LSPs by their ids, and the ids in the order of the tree. -/
structure LspDb where
  lsp : LspId → Option Lsp
  ids : List LspId
  sorted : ids.Pairwise (· ≤ ·)
  nodup : ids.Nodup
  mem_ids : ∀ id, id ∈ ids ↔ (lsp id).isSome

instance : CoeFun LspDb fun _ => LspId → Option Lsp := ⟨LspDb.lsp⟩

structure Router where
  sysid : BitVec 48
  lspdb : LspDb
  /-- The checksum of an own LSP that is made anew. -/
  fletcher : LspHeader → UInt16

structure Csnp where
  startLspId : LspId
  stopLspId : LspId
  lspEntries : Entries LspId LspHeader

def lspIncSeqnum (r : Router) (lsp : LspHeader) (seqNum : UInt32) : LspHeader :=
  let lsp := { lsp with seqNum := if seqNum = 0 ∨ seqNum < lsp.seqNum then lsp.seqNum + 1 else seqNum + 1 }
  { lsp with checksum := r.fletcher lsp }

/-- What `process_snp` makes of the LSP of an entry. -/
def processEntry (r : Router) (id : LspId) (entry : LspHeader) : Option Lsp → Option Lsp
  | some lsp =>
    match lspCompare lsp.header entry with
    | .equal => some { lsp with srm := false }
    | .older => some { lsp with srm := true, ssn := false }
    | .newer =>
      if id.sysId = r.sysid then some { lsp with header := lspIncSeqnum r lsp.header entry.seqNum, srm := true }
      else some { lsp with srm := false, ssn := true }
  | none =>
    if entry.remLifetime ≠ 0 ∧ entry.checksum ≠ 0 ∧ entry.seqNum ≠ 0 ∧ id.sysId ≠ r.sysid then
      some ⟨⟨0, entry.checksum, entry.remLifetime⟩, false, true⟩
    else none

namespace LspDb

def empty : LspDb := ⟨fun _ => none, [], .nil, nodup_nil, by simp⟩

variable (db : LspDb)

/-- An LSP takes the place of the one with its id, or is inserted. -/
def put (id : LspId) (lsp : Lsp) : LspDb where
  lsp := update db.lsp id (some lsp)
  ids := if id ∈ db.ids then db.ids else db.ids.orderedInsert (· ≤ ·) id
  sorted := by
    split
    · exact db.sorted
    · exact db.sorted.orderedInsert id _
  nodup := by
    split_ifs with hmem
    · exact db.nodup
    · exact (perm_orderedInsert _ id _).nodup_iff.2 (nodup_cons.2 ⟨hmem, db.nodup⟩)
  mem_ids id' := by
    have hold := db.mem_ids id'
    by_cases hid : id' = id
    · subst hid
      rw [update_self]
      split_ifs with hmem <;> simp [hmem]
    · rw [update_of_ne hid, ← hold]
      split_ifs <;> simp [hid]

/-- The SRM flags of some LSPs are set. -/
def setSrm (ids : List LspId) : LspDb :=
  { db with
    lsp := fun id => (db id).map fun lsp => if id ∈ ids then { lsp with srm := true } else lsp
    mem_ids := fun id => by rw [db.mem_ids, Option.isSome_map] }

/-- The rest of the walk of `lsp_build_list_nonzero_ht`, which ends with `last` if it comes to it. -/
def walkTo (last : Option LspId) : List LspId → List LspId
  | [] => []
  | curr :: rest => if some curr = last then [curr] else curr :: walkTo last rest

/-- `lsp_build_list_nonzero_ht`. The walk compares with `last` only behind `first`, and goes on to the end of the
database where they are the same. -/
def lspBuildListNonzeroHt (startId stopId : LspId) : List LspId :=
  match db.ids.dropWhile (· < startId) with
  | [] => []
  | first :: rest =>
    let last := (db.ids.takeWhile (· ≤ stopId)).getLast?
    (first :: walkTo last rest).filter fun id => (db id).any (·.header.remLifetime ≠ 0)

-- The range has one LSP, and the one behind it is listed as well.
example : ((empty.put 1 ⟨⟨5, 0, 900⟩, false, false⟩).put 2 ⟨⟨5, 0, 900⟩, false, false⟩).lspBuildListNonzeroHt 1 1 =
    [1, 2] := by decide

end LspDb

/-- What `process_snp` makes of the database for an entry. -/
def processEntryIn (r : Router) (db : LspDb) (id : LspId) (entry : LspHeader) : LspDb :=
  (processEntry r id entry (db id)).elim db (db.put id)

/-- `process_snp` for a CSNP: the entries, and then the LSPs of its range that it does not list. -/
def processCsnp (r : Router) (csnp : Csnp) : LspDb :=
  let db := csnp.lspEntries.forEach (processEntryIn r) r.lspdb
  db.setSrm ((db.lspBuildListNonzeroHt csnp.startLspId csnp.stopLspId).filter fun id => csnp.lspEntries.get id = none)

/-- An LSP that is in the database stays there. -/
theorem processEntryIn_self (r : Router) (db : LspDb) (id : LspId) (entry : LspHeader) :
    processEntryIn r db id entry id = processEntry r id entry (db id) := by
  unfold processEntryIn
  cases hnew : processEntry r id entry (db id) with
  | some lsp => exact update_self ..
  | none =>
    cases hold : db id with
    | none => rw [Option.elim_none, hold]
    | some lsp =>
      rw [hold, processEntry] at hnew
      split at hnew
      · cases hnew
      · cases hnew
      · split at hnew <;> cases hnew

theorem processEntryIn_of_ne (r : Router) (db : LspDb) {id id' : LspId} (entry : LspHeader) (hne : id' ≠ id) :
    processEntryIn r db id entry id' = db id' := by
  unfold processEntryIn
  cases processEntry r id entry (db id) with
  | none => rfl
  | some lsp => exact update_of_ne hne ..

/-- A copy of another system's LSP that differs from the entry: it is asked for unless its number is lower. -/
theorem processCsnp_eq {r : Router} {csnp : Csnp} {id : LspId} {entry : LspHeader} {lsp : Lsp}
    (hlsp : r.lspdb id = some lsp) (hid : id.sysId ≠ r.sysid) (hget : csnp.lspEntries.get id = some entry)
    (hne : ¬lsp.header.Same entry) : processCsnp r csnp id =
      if lsp.header.seqNum ≤ entry.seqNum then some { lsp with srm := false, ssn := true }
      else some { lsp with srm := true, ssn := false } := by
  have hloop := csnp.lspEntries.obs_forEach LspDb.lsp (processEntry r) (processEntryIn_self r)
    (fun db id entry id' hne => processEntryIn_of_ne r db entry hne) r.lspdb id
  rw [hget, hlsp, Option.elim_some, processEntry, lspCompare, if_neg hne] at hloop
  have hlisted : processCsnp r csnp id = csnp.lspEntries.forEach (processEntryIn r) r.lspdb id := by
    simp [processCsnp, LspDb.setSrm, hget]
  rw [hlisted, hloop]
  split_ifs <;> rfl

/-- Two neighbours with different copies of a third system's LSP, each with a packet that lists the copy of the other:
one sends its copy and the other asks for it exactly if the sequence numbers differ. Otherwise both copies are the newer
ones. -/
theorem csnps_exchanged_iff (r r' : Router) (csnp csnp' : Csnp) (id : LspId) (lsp lsp' : Lsp)
    (hlsp : r.lspdb id = some lsp) (hlsp' : r'.lspdb id = some lsp') (hid : id.sysId ≠ r.sysid ∧ id.sysId ≠ r'.sysid)
    (hget : csnp.lspEntries.get id = some lsp'.header) (hget' : csnp'.lspEntries.get id = some lsp.header)
    (hne : ¬lsp.header.Same lsp'.header) :
    (processCsnp r csnp id = some { lsp with srm := true, ssn := false } ∧
        processCsnp r' csnp' id = some { lsp' with srm := false, ssn := true } ∨
      processCsnp r csnp id = some { lsp with srm := false, ssn := true } ∧
        processCsnp r' csnp' id = some { lsp' with srm := true, ssn := false } ↔
      lsp.header.seqNum ≠ lsp'.header.seqNum) ∧
    (¬(lspCompare lsp.header lsp'.header = .newer ∧ lspCompare lsp'.header lsp.header = .newer) ↔
      lsp.header.seqNum ≠ lsp'.header.seqNum) := by
  have hne' : ¬lsp'.header.Same lsp.header := fun h => hne ⟨h.1.symm, h.2.1.symm, h.2.2.symm⟩
  rw [processCsnp_eq hlsp hid.1 hget hne, processCsnp_eq hlsp' hid.2 hget' hne', lspCompare, lspCompare, if_neg hne,
    if_neg hne', ne_eq, UInt32.le_antisymm_iff]
  by_cases hle : lsp.header.seqNum ≤ lsp'.header.seqNum
  · by_cases hge : lsp'.header.seqNum ≤ lsp.header.seqNum <;> simp [hle, hge]
  · simp [hle, (UInt32.le_total ..).resolve_left hle]

/-- A router that has one LSP, and the packet that lists it. -/
def oneLsp (sysid : BitVec 48) (header : LspHeader) : Router where
  sysid := sysid
  lspdb := LspDb.empty.put 0x30000 ⟨header, false, false⟩
  fletcher := fun _ => 0

def oneEntry (header : LspHeader) : Csnp := ⟨0, -1, .singleton 0x30000 header⟩

/-- With one sequence number and two checksums, both ask and none sends. -/
theorem csnps_exchanged_same_seqNum : ∃ lsp lsp', ¬LspHeader.Same lsp lsp' ∧
    processCsnp (oneLsp 1 lsp) (oneEntry lsp') 0x30000 = some ⟨lsp, false, true⟩ ∧
    processCsnp (oneLsp 2 lsp') (oneEntry lsp) 0x30000 = some ⟨lsp', false, true⟩ :=
  ⟨⟨7, 1, 900⟩, ⟨7, 2, 900⟩, by decide, rfl, rfl⟩

/-- With two sequence numbers the router of the higher one sends and the other one asks. -/
theorem csnps_exchanged_seqNums :
    processCsnp (oneLsp 1 ⟨8, 1, 900⟩) (oneEntry ⟨7, 2, 900⟩) 0x30000 = some ⟨⟨8, 1, 900⟩, true, false⟩ ∧
      processCsnp (oneLsp 2 ⟨7, 2, 900⟩) (oneEntry ⟨8, 1, 900⟩) 0x30000 = some ⟨⟨7, 2, 900⟩, false, true⟩ ∧
    ¬(lspCompare ⟨8, 1, 900⟩ ⟨7, 2, 900⟩ = .newer ∧ lspCompare ⟨7, 2, 900⟩ ⟨8, 1, 900⟩ = .newer) := by
  obtain ⟨hflags, hcompare⟩ := csnps_exchanged_iff (oneLsp 1 ⟨8, 1, 900⟩) (oneLsp 2 ⟨7, 2, 900⟩) (oneEntry ⟨7, 2, 900⟩)
    (oneEntry ⟨8, 1, 900⟩) 0x30000 ⟨_, false, false⟩ ⟨_, false, false⟩ rfl rfl (by decide) rfl rfl (by decide)
  rcases hflags.2 (by decide) with ⟨hsends, hasks⟩ | ⟨hasks, -⟩
  · exact ⟨hsends, hasks, hcompare.2 (by decide)⟩
  · cases hasks

end Tarpan.Isisd
