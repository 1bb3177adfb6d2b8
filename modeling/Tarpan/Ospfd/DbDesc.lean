/-
Database Description packets of OSPF (ospfd/ospf_packet.c, ospfd/ospf_flood.c). The headers in a packet tell which LSAs
the neighbour has, and those that it has a more recent instance of are put on the list of requests.
-/
import Tarpan.Ospfd.Lsa

namespace Tarpan.Ospfd

open Base List Function

/-- A header as it is sent; `OSPF_LSA_HEADER_SIZE` is 20. -/
def LsaHeader.ofOctets (octets : List UInt8) : LsaHeader where
  lsAge := .ofNat (beVal (octets.take 2))
  options := .ofNat (beVal ((octets.drop 2).take 1))
  type := .ofNat (beVal ((octets.drop 3).take 1))
  id := .ofNat (beVal ((octets.drop 4).take 4))
  advRouter := .ofNat (beVal ((octets.drop 8).take 4))
  lsSeqnum := .ofNat (beVal ((octets.drop 12).take 4))
  checksum := .ofNat (beVal ((octets.drop 16).take 2))
  length := .ofNat (beVal ((octets.drop 18).take 2))

/-- The headers that a packet lists after its first octets; what is too short for one is not read. -/
def listedHeaders (octets : List UInt8) : List LsaHeader :=
  if octets.length < 20 then [] else .ofOctets (octets.take 20) :: listedHeaders (octets.drop 20)
termination_by octets.length
decreasing_by
  rw [length_drop]
  omega

/-- The area and the databases that a packet is compared with. -/
structure OspfArea where
  stub : Bool
  lsdb : Lsdb
  /-- `ospf->lsdb`, for the types of the whole domain. -/
  asLsdb : Lsdb

def ospfLsaLookup (area : OspfArea) (key : LsaKey) : Option OspfLsa :=
  if key.type ∈ [1, 2, 3, 4, 7, 9, 10] then area.lsdb key
  else if key.type ∈ [5, 11] then area.asLsdb key
  else none

def ospfLsaLookupByHeader (area : OspfArea) (lsah : LsaHeader) : Option OspfLsa := ospfLsaLookup area lsah.key

/-- `NSM_SeqNumberMismatch`, the only event of the loop. -/
inductive NsmEvent where
  | seqNumberMismatch

/-- What a neighbour is for the exchange: whether it knows opaque LSAs, the requests, and the summary of the LSAs that
it is still told of. New memory starts at `brk`. -/
structure Nbr where
  optionO : Bool
  lsReq : Lsdb
  dbSum : Lsdb
  events : List NsmEvent := []
  brk : Nat

def ospfLsdbAdd (lsdb : Lsdb) (lsa : OspfLsa) : Lsdb := update lsdb lsa.data.key (some lsa)

/-- `ospf_lsdb_delete`: the instance itself, not another one of the LSA. -/
def ospfLsdbDelete (lsdb : Lsdb) (lsa : OspfLsa) : Lsdb :=
  if (lsdb lsa.data.key).any (·.address = lsa.address) then update lsdb lsa.data.key none else lsdb

def ospfLsRequestNew (now : Int) (nbr : Nbr) (lsah : LsaHeader) : OspfLsa := ⟨nbr.brk, lsah, now⟩

/-- The headers on which the exchange starts again: a type that is not known, an opaque LSA from a neighbour without the
option, an LSA of the whole domain in a stub area. -/
def rejects (area : OspfArea) (nbr : Nbr) (lsah : LsaHeader) : Bool :=
  lsah.type < 1 ∨ lsah.type ≥ 12 ∨ (lsah.type ∈ [9, 10, 11] ∧ ¬ nbr.optionO) ∨ (lsah.type ∈ [5, 11] ∧ area.stub)

def dropSummary (nbr : Nbr) (find : Option OspfLsa) : Nbr :=
  match find with
  | some find => { nbr with dbSum := ospfLsdbDelete nbr.dbSum find }
  | none => nbr

/-- A header that is not rejected. -/
def compareHeader (now : Int) (area : OspfArea) (nbr : Nbr) (lsah : LsaHeader) : Nbr :=
  let new := ospfLsRequestNew now nbr lsah
  let find := ospfLsaLookupByHeader area lsah
  let nbr := { nbr with brk := nbr.brk + 1 }
  match ospfLsaMoreRecent now find (some new) with
  | -1 => dropSummary { nbr with lsReq := ospfLsdbAdd nbr.lsReq new } find
  | 0 => dropSummary nbr find
  | _ => nbr

/-- The loop of `ospf_db_desc_proc`. -/
def dbDescLoop (now : Int) (area : OspfArea) : List LsaHeader → Nbr → Nbr
  | [], nbr => nbr
  | lsah :: lsahs, nbr =>
    if rejects area nbr lsah then { nbr with events := nbr.events ++ [.seqNumberMismatch] }
    else dbDescLoop now area lsahs (compareHeader now area nbr lsah)

/-- `ospf_db_desc_proc`, for the octets after the first eight. The answer that follows reads the summary only. -/
def ospfDbDescProc (now : Int) (area : OspfArea) (nbr : Nbr) (octets : List UInt8) : Nbr :=
  dbDescLoop now area (listedHeaders octets) nbr

section Requests
variable {now : Int} {area : OspfArea} {nbr : Nbr} {lsah : LsaHeader} {lsahs : List LsaHeader} {key : LsaKey}

/-- The instance that a header tells of, against that of the database. -/
def headerOrder (now : Int) (area : OspfArea) (lsah : LsaHeader) : Int :=
  ospfLsaMoreRecent now (ospfLsaLookupByHeader area lsah) (some ⟨0, lsah, now⟩)

variable (now : Int)

theorem ospfLsaMoreRecent_address (find : Option OspfLsa) (a a' : Nat) (lsah : LsaHeader) (tv : Int) :
    ospfLsaMoreRecent now find (some ⟨a, lsah, tv⟩) = ospfLsaMoreRecent now find (some ⟨a', lsah, tv⟩) := by
  cases find <;> rfl

theorem dropSummary_lsReq (nbr : Nbr) (find : Option OspfLsa) : (dropSummary nbr find).lsReq = nbr.lsReq := by
  cases find <;> rfl

theorem dropSummary_optionO (nbr : Nbr) (find : Option OspfLsa) : (dropSummary nbr find).optionO = nbr.optionO := by
  cases find <;> rfl

theorem compareHeader_lsReq (area : OspfArea) (nbr : Nbr) (lsah : LsaHeader) :
    (compareHeader now area nbr lsah).lsReq =
      if headerOrder now area lsah = -1 then update nbr.lsReq lsah.key (some ⟨nbr.brk, lsah, now⟩)
      else nbr.lsReq := by
  unfold compareHeader headerOrder ospfLsRequestNew
  dsimp only
  rw [ospfLsaMoreRecent_address now _ nbr.brk 0]
  split
  · rename_i h
    rw [h, if_pos rfl, dropSummary_lsReq]
    rfl
  · rename_i h
    rw [h, if_neg (by decide), dropSummary_lsReq]
  · rename_i h _
    rw [if_neg h]

theorem compareHeader_optionO (area : OspfArea) (nbr : Nbr) (lsah : LsaHeader) :
    (compareHeader now area nbr lsah).optionO = nbr.optionO := by
  unfold compareHeader
  dsimp only
  split
  · exact dropSummary_optionO ..
  · exact dropSummary_optionO ..
  · rfl

theorem rejects_congr {nbr' : Nbr} (h : nbr'.optionO = nbr.optionO) (lsah : LsaHeader) :
    rejects area nbr' lsah = rejects area nbr lsah := by
  unfold rejects
  rw [h]

/-- The headers that the loop gets to and does not reject. -/
def reached (area : OspfArea) (nbr : Nbr) (lsahs : List LsaHeader) : List LsaHeader :=
  lsahs.takeWhile fun lsah => !rejects area nbr lsah

theorem reached_congr {nbr' : Nbr} (h : nbr'.optionO = nbr.optionO) (lsahs : List LsaHeader) :
    reached area nbr' lsahs = reached area nbr lsahs := by
  unfold reached
  simp [rejects_congr h]

/-- A request stays, and comes for an LSA that a header which the loop gets to ranks by `-1`. -/
theorem dbDescLoop_lsReq (key : LsaKey) : ∀ (lsahs : List LsaHeader) (nbr : Nbr),
    ((dbDescLoop now area lsahs nbr).lsReq key).isSome ↔ (nbr.lsReq key).isSome ∨
      ∃ lsah ∈ reached area nbr lsahs, lsah.key = key ∧ headerOrder now area lsah = -1
  | [], nbr => by simp [dbDescLoop, reached]
  | lsah :: lsahs, nbr => by
    unfold dbDescLoop
    by_cases hrej : rejects area nbr lsah = true
    · have hnone : reached area nbr (lsah :: lsahs) = [] := takeWhile_cons_of_neg (by simp [hrej])
      simp [hrej, hnone]
    have hcons : reached area nbr (lsah :: lsahs) = lsah :: reached area nbr lsahs :=
      takeWhile_cons_of_pos (by simp [hrej])
    rw [if_neg hrej, dbDescLoop_lsReq key lsahs, reached_congr (compareHeader_optionO ..), hcons,
      exists_mem_cons_iff, ← or_assoc]
    refine or_congr_left ?_
    rw [compareHeader_lsReq]
    by_cases hord : headerOrder now area lsah = -1
    · by_cases hkey : lsah.key = key
      · simp [hord, hkey]
      · simp [hord, hkey, update_of_ne (Ne.symm hkey)]
    · simp [hord]

end Requests

section Wanted
variable {now : Int} {area : OspfArea} {lsah : LsaHeader}

/-- The database has no instance of the LSA, or one that is older than the one that the neighbour has. -/
def Wanted (now : Int) (area : OspfArea) (lsah : LsaHeader) : Prop :=
  ospfLsaLookupByHeader area lsah = none ∨ headerOrder now area lsah < 0

/-- The instance of the database has the sequence number of the header, and a checksum that is lower by more than
one. -/
def FarChecksum (area : OspfArea) (lsah : LsaHeader) : Prop :=
  ∃ find, ospfLsaLookupByHeader area lsah = some find ∧ find.data.seqnum = lsah.seqnum ∧
    find.data.checksum.toNat + 1 < lsah.checksum.toNat

theorem headerOrder_none (h : ospfLsaLookupByHeader area lsah = none) : headerOrder now area lsah = -1 := by
  unfold headerOrder
  rw [h]
  rfl

theorem wanted_iff : Wanted now area lsah ↔ headerOrder now area lsah < 0 := by
  refine or_iff_right_of_imp fun h => ?_
  rw [headerOrder_none h]
  decide

/-- The difference of the checksums is the only result below `-1`. -/
theorem ageMoreRecent_lt_iff {l1 l2 : OspfLsa} :
    ageMoreRecent now l1 l2 < -1 ↔ l1.data.checksum.toNat + 1 < l2.data.checksum.toNat := by
  unfold ageMoreRecent
  dsimp only
  split_ifs <;> omega

theorem farChecksum_iff (now : Int) : FarChecksum area lsah ↔ headerOrder now area lsah < -1 := by
  unfold FarChecksum headerOrder
  rcases h : ospfLsaLookupByHeader area lsah with _ | find
  · exact iff_of_false (by rintro ⟨_, ⟨⟩, -⟩) (lt_irrefl (-1 : Int))
  have hsome : (∃ find', some find = some find' ∧ find'.data.seqnum = lsah.seqnum ∧
      find'.data.checksum.toNat + 1 < lsah.checksum.toNat) ↔
      find.data.seqnum = lsah.seqnum ∧ find.data.checksum.toNat + 1 < lsah.checksum.toNat := by
    simp
  rw [hsome, ospfLsaMoreRecent]
  dsimp only
  split_ifs with hgt hlt
  · exact iff_of_false (fun hfar => by omega) (by decide)
  · exact iff_of_false (fun hfar => by omega) (lt_irrefl _)
  · rw [ageMoreRecent_lt_iff]
    exact and_iff_right (by omega)

/-- The case of the loop that requests an LSA. -/
theorem headerOrder_eq_iff : headerOrder now area lsah = -1 ↔ Wanted now area lsah ∧ ¬ FarChecksum area lsah := by
  rw [wanted_iff, farChecksum_iff now]
  omega

end Wanted

/-- A packet leads to requests for exactly the LSAs that are wanted where each header of a wanted LSA is one that the
loop gets to and has no far checksum (or the LSA is requested for another reason), and the LSA of no other header is
requested for another reason. The rank of instances itself is an order. -/
theorem ospfDbDescProc_requests (now : Int) (area : OspfArea) (nbr : Nbr) (octets : List UInt8) :
    ((∀ lsah ∈ listedHeaders octets,
      ((ospfDbDescProc now area nbr octets).lsReq lsah.key).isSome ↔ Wanted now area lsah) ↔
    ∀ lsah ∈ listedHeaders octets, (Wanted now area lsah → (nbr.lsReq lsah.key).isSome ∨
        ∃ l ∈ reached area nbr (listedHeaders octets), l.key = lsah.key ∧ Wanted now area l ∧ ¬ FarChecksum area l) ∧
      (¬ Wanted now area lsah → nbr.lsReq lsah.key = none ∧
        ∀ l ∈ reached area nbr (listedHeaders octets), l.key = lsah.key → Wanted now area l → FarChecksum area l)) ∧
    (∀ l1 l2 : Option OspfLsa, (ospfLsaMoreRecent now l2 l1).sign = -(ospfLsaMoreRecent now l1 l2).sign) ∧
    ∀ l1 l2 l3 : Option OspfLsa, 0 < ospfLsaMoreRecent now l1 l2 → 0 < ospfLsaMoreRecent now l2 l3 →
      0 < ospfLsaMoreRecent now l1 l3 := by
  refine ⟨forall₂_congr fun lsah _ => ?_, fun l1 l2 => ?_, fun l1 l2 l3 => ?_⟩
  · unfold ospfDbDescProc
    simp only [dbDescLoop_lsReq, headerOrder_eq_iff]
    constructor
    · intro h
      refine ⟨h.2, fun hnot => ?_⟩
      have hnone := mt h.1 hnot
      rw [not_or, Option.not_isSome_iff_eq_none] at hnone
      exact ⟨hnone.1, fun l hl hkey hwanted => of_not_not fun hfar => hnone.2 ⟨l, hl, hkey, hwanted, hfar⟩⟩
    · rintro ⟨h, h'⟩
      refine ⟨fun hreq => of_not_not fun hnot => ?_, h⟩
      obtain ⟨hnone, hfar⟩ := h' hnot
      rcases hreq with hreq | ⟨l, hl, hkey, hwanted, hnear⟩
      · rw [hnone] at hreq
        cases hreq
      · exact hnear (hfar l hl hkey hwanted)
  · rw [ospfLsaMoreRecent_neg now l1 l2, Int.sign_neg]
  · exact ospfLsaMoreRecent_trans

/-- The octets of a router LSA's header, of age 1, with sequence number 1 and checksum 5. -/
def routerHeaderOctets : List UInt8 := [0, 1, 2, 1, 10, 0, 0, 1, 10, 0, 0, 1, 0x80, 0, 0, 1, 0, 5, 0, 24]

/-- The database holds the instance of that router LSA with the checksum 2. -/
def routerArea : OspfArea where
  stub := false
  lsdb := fun key =>
    if key = ⟨1, 0x0a000001, 0x0a000001⟩ then some ⟨7, ⟨1, 2, 1, 0x0a000001, 0x0a000001, 0x80000001, 2, 24⟩, 0⟩
    else none
  asLsdb := fun _ => none

/-- A neighbour at the start of the exchange. -/
def newNbr : Nbr where
  optionO := false
  lsReq := fun _ => none
  dbSum := fun _ => none
  brk := 8

theorem listedHeaders_router : listedHeaders routerHeaderOctets =
    [⟨1, 2, 1, 0x0a000001, 0x0a000001, 0x80000001, 5, 24⟩] := by
  unfold listedHeaders
  rw [if_neg (by decide)]
  unfold listedHeaders
  decide

/-- The instance of the neighbour is the more recent one, by a checksum that is higher by three, and is not
requested. -/
theorem ospfDbDescProc_requests_far_checksum : ∃ lsah ∈ listedHeaders routerHeaderOctets, Wanted 0 routerArea lsah ∧
    (ospfDbDescProc 0 routerArea newNbr routerHeaderOctets).lsReq lsah.key = none := by
  unfold ospfDbDescProc Wanted
  rw [listedHeaders_router]
  refine ⟨_, mem_singleton_self _, .inr ?_, ?_⟩
  · decide
  · decide

end Tarpan.Ospfd
