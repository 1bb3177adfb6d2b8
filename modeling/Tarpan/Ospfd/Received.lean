/-
The checks of received OSPF packets (ospfd/ospf_packet.c), and the assertions when an LSA of an update is installed
(ospfd/ospf_lsa.c). An opaque LSA without a body passes the checks, and the comparison with a copy of it asserts that
there is a body.
-/
import Tarpan.Ospfd.Flood
import Tarpan.Ospfd.RouterLinks

namespace Tarpan.Ospfd.Flood

open Base List

/-! ## The checks -/

/-- `type` and `length` of the LSA at the start of the octets. -/
def lsaType (octets : List UInt8) : UInt8 := octets.getD 3 0
def lsaLength (octets : List UInt8) : Nat := beVal ((octets.drop 18).take 2)
def ospfLsaMinlen : List Nat := [0, 4, 8, 8, 8, 16, 0, 16, 0, 0, 0, 0]

def ospfLsaExamin (lsah : List UInt8) (lsalen : Nat) (headeronly : Bool) : Bool :=
  let minlen := ospfLsaMinlen.getD (lsaType lsah).toNat 0
  if minlen ≠ 0 ∧ lsalen < 20 + minlen then false
  else if lsaType lsah = 1 then
    if headeronly then (lsalen - 24) % 4 = 0
    else ospfRouterLsaLinksExamin ((lsah.take lsalen).drop 24) (beVal ((lsah.drop 22).take 2))
  else if lsaType lsah = 5 ∨ lsaType lsah = 7 then (lsalen - 36) % 12 = 0
  else if lsaType lsah ∈ [2, 3, 4, 9, 10, 11] then lsalen % 4 = 0
  else false

/-- The loop of `ospf_lsaseq_examin`, with the LSAs that it counts. -/
def lsaseq (headeronly : Bool) : Nat → List UInt8 → Option (List (List UInt8))
  | turns + 1, octets =>
    if octets = [] then some []
    else if octets.length < 20 then none
    else if lsaLength octets < 20 then none
    else if ¬headeronly ∧ lsaLength octets > octets.length then none
    else if ospfLsaExamin octets (lsaLength octets) headeronly then
      let size := bif headeronly then 20 else lsaLength octets
      (lsaseq headeronly turns (octets.drop size)).map (octets.take size :: ·)
    else none
  | 0, _ => none

def ospfLsaseqExamin (octets : List UInt8) (headeronly : Bool) (declaredNumLsas : Nat) : Bool :=
  (lsaseq headeronly (octets.length + 1) octets).any fun lsas => declaredNumLsas = 0 ∨ lsas.length = declaredNumLsas

section
variable (packet : List UInt8)

def bytesdeclared : Nat := beVal ((packet.drop 2).take 2)
def bytesauth : Nat := if beVal ((packet.drop 14).take 2) = 2 then 16 else 0

/-- The octets after the header. -/
def contents : List UInt8 := (packet.take (bytesdeclared packet)).drop 24
def ospfPacketMinlen : List Nat := [0, 20, 8, 0, 4, 0]

def ospfPacketExamin : Bool :=
  if packet.length < 24 then false
  else if packet.getD 0 0 ≠ 2 then false
  else if bytesauth packet ≠ 0 ∧ packet.getD 19 0 ≠ 16 then false
  else if bytesdeclared packet + bytesauth packet > packet.length then false
  else if bytesdeclared packet < 24 + ospfPacketMinlen.getD (packet.getD 1 0).toNat 0 then false
  else match packet.getD 1 0 with
    | 1 => (bytesdeclared packet - 44) % 4 = 0
    | 2 => ospfLsaseqExamin ((contents packet).drop 8) true 0
    | 3 => (bytesdeclared packet - 24) % 12 = 0
    | 4 => ospfLsaseqExamin ((contents packet).drop 4) false (beVal ((contents packet).take 4))
    | 5 => ospfLsaseqExamin (contents packet) true 0
    | _ => false

/-- The loop of `ospf_ls_upd_list_lsa`, with the LSAs whose checksum or type it may refuse. -/
def updLsas : Nat → List UInt8 → List (List UInt8)
  | count + 1, octets =>
    if octets.length < 20 ∨ lsaLength octets > octets.length then []
    else octets.take (lsaLength octets) :: updLsas count (octets.drop (lsaLength octets))
  | 0, _ => []

/-- The number of LSAs is cut to 16 bits. -/
def ospfLsUpdListLsa : List (List UInt8) :=
  updLsas (beVal ((contents packet).take 4) % 65536) ((contents packet).drop 4)

end

/-! ## The installation -/

/-- The headers of two instances are the same for `ospf_lsa_different`. -/
structure SameHeader (now : Int) (m : Memory) (l1 l2 : LsaRef) : Prop where
  options : (m l1).options = (m l2).options
  maxage : isLsaMaxage now (lsaOf m l1) = isLsaMaxage now (lsaOf m l2)
  length : (m l1).length = (m l2).length
  received : (m l1).received = (m l2).received

section
variable (now : Int) (body : LsaRef → List UInt8)

/-- The bodies stand apart from the rest of an instance. The result is `none` where an assertion fails. -/
def ospfLsaDifferent (m : Memory) (l1 l2 : LsaRef) : Option Bool :=
  if (m l1).options ≠ (m l2).options then some true
  else if isLsaMaxage now (lsaOf m l1) ∧ ¬isLsaMaxage now (lsaOf m l2) then some true
  else if isLsaMaxage now (lsaOf m l2) ∧ ¬isLsaMaxage now (lsaOf m l1) then some true
  else if (m l1).length ≠ (m l2).length then some true
  else if (m l1).length = 0 then some true
  else if (m l1).received ≠ (m l2).received then some true
  else if (m l1).length ≤ 20 then none
  else some ((body l1).take ((m l1).length.toNat - 20) ≠ (body l2).take ((m l1).length.toNat - 20))

/-- The assertions of `ospf_lsa_install`: there is a database, the comparison with its copy passes, and a network LSA
that is put into the database has an interface. -/
def InstallAsserts (s : Ospf) (oi : Option Nat) (lsa : LsaRef) : Prop :=
  (ofArea s lsa → ∃ area ∈ s.areas, (s.memory lsa).area = some area.pointer) ∧
    (∀ old ∈ copyOf s lsa, ospfLsaDifferent now body s.memory old lsa ≠ none) ∧
    (¬(wraps s lsa ∧ ¬isSelfOriginated s lsa) → lsa.key.type = 2 → oi ≠ none)

end

/-- The instance as `ospf_ls_upd_list_lsa` makes it of an LSA of an update from the area. -/
structure MadeOf (s : Ospf) (area : Nat) (lsa : List UInt8) (new : LsaRef) : Prop where
  type : new.key.type = lsaType lsa
  length : (s.memory new).length.toNat = lsaLength lsa
  area : ¬isAs new.key → (s.memory new).area = some area

variable {now : Int} {body : LsaRef → List UInt8} {m : Memory} {l1 l2 : LsaRef}

theorem ospfLsaDifferent_eq_none_iff (h20 : 20 ≤ (m l2).length.toNat) :
    ospfLsaDifferent now body m l1 l2 = none ↔ SameHeader now m l1 l2 ∧ (m l2).length = 20 := by
  have hle : (m l2).length ≤ 20 ↔ (m l2).length = 20 := by
    rw [UInt16.le_iff_toNat_le, ← UInt16.toNat_inj]
    exact ⟨fun h => le_antisymm h h20, le_of_eq⟩
  have hzero : (m l2).length ≠ 0 := fun h => by simp [h] at h20
  constructor
  · intro h
    unfold ospfLsaDifferent at h
    split_ifs at h with hopts hmax hmax' hlength _ hreceived hshort
    rw [not_not] at hopts hlength hreceived
    refine ⟨⟨hopts, ?_, hlength, hreceived⟩, hle.1 (hlength ▸ hshort)⟩
    rw [Bool.eq_iff_iff]
    tauto
  · rintro ⟨⟨hopts, hmax, hlength, hreceived⟩, h⟩
    simp [ospfLsaDifferent, hopts, hmax, hlength, hreceived, h]

theorem lsaType_of_examin {lsah : List UInt8} (h : ospfLsaExamin lsah 20 false) : lsaType lsah ∈ [9, 10, 11] := by
  unfold ospfLsaExamin at h
  generalize lsaType lsah = type at *
  have hminlen : ∀ t ∈ [1, 2, 3, 4, 5, 7], 0 < ospfLsaMinlen.getD (UInt8.toNat t) 0 := by simp [ospfLsaMinlen]
  have hnot : ∀ t ∈ [1, 2, 3, 4, 5, 7], type ≠ t := by
    rintro t ht rfl
    have := hminlen type ht
    rw [if_pos (by omega)] at h
    cases h
  simp only [mem_cons, not_mem_nil, or_false, forall_eq_or_imp, forall_eq] at hnot ⊢
  split_ifs at h <;> simp_all

theorem updLsas_of_lsaseq : ∀ {turns count : Nat} {octets : List UInt8} {lsas : List (List UInt8)},
    lsaseq false turns octets = some lsas →
      ∀ lsa ∈ updLsas count octets, 20 ≤ lsaLength lsa ∧ (lsaLength lsa = 20 → lsaType lsa ∈ [9, 10, 11])
  | _, 0, _, _, _ => by simp [updLsas]
  | turns + 1, count + 1, octets, lsas, h => by
    rw [lsaseq] at h
    split_ifs at h with hnil hhdr hlength hlong hexamin
    · simp [updLsas, hnil]
    obtain ⟨rest, hrest, -⟩ := Option.map_eq_some_iff.1 h
    have htype : lsaType (octets.take (lsaLength octets)) = lsaType octets := by
      simp [lsaType, show 3 < lsaLength octets by omega]
    have hsame : lsaLength (octets.take (lsaLength octets)) = lsaLength octets := by
      rw [lsaLength, drop_take, take_take, min_eq_left (by omega), lsaLength]
    have hfits : lsaLength octets ≤ octets.length := by simpa using hlong
    rw [updLsas, if_neg (by omega), forall_mem_cons, htype, hsame]
    exact ⟨⟨by omega, fun h => lsaType_of_examin (h ▸ hexamin)⟩, updLsas_of_lsaseq hrest⟩

/-- An LSA of an update that passes the checks is installed without a failing assertion, but for an opaque LSA without a
body whose copy has the same header. -/
theorem installAsserts_iff (packet lsa : List UInt8) {s : Ospf} {a oi : Nat} {new : LsaRef}
    (hpacket : ospfPacketExamin packet) (hupd : packet.getD 1 0 = 4) (hlsa : lsa ∈ ospfLsUpdListLsa packet)
    (hnew : MadeOf s a lsa new) (harea : ∃ area ∈ s.areas, area.pointer = a) :
    InstallAsserts now body s (some oi) new ↔
      ¬∃ old ∈ copyOf s new, SameHeader now s.memory old new ∧ isOpaque new.key ∧ (s.memory new).length = 20 := by
  have hseq : ospfLsaseqExamin ((contents packet).drop 4) false (beVal ((contents packet).take 4)) := by
    unfold ospfPacketExamin at hpacket
    split_ifs at hpacket
    rw [hupd] at hpacket
    exact hpacket
  obtain ⟨lsas, hlsas, -⟩ := (Option.any_eq_true ..).1 hseq
  obtain ⟨h20, hopaque⟩ := updLsas_of_lsaseq hlsas lsa hlsa
  rw [← hnew.length] at h20 hopaque
  rw [← hnew.type] at hopaque
  constructor
  · rintro ⟨-, hdifferent, -⟩ ⟨old, hold, hsame, -, hlength⟩
    exact hdifferent old hold ((ospfLsaDifferent_eq_none_iff h20).2 ⟨hsame, hlength⟩)
  · intro h
    refine ⟨fun hof => ?_, fun old hold hnone => ?_, fun _ _ => Option.some_ne_none oi⟩
    · obtain ⟨area, hmem, rfl⟩ := harea
      exact ⟨area, hmem, hnew.area (of_decide_eq_true hof).1⟩
    · obtain ⟨hsame, hlength⟩ := (ospfLsaDifferent_eq_none_iff h20).1 hnone
      exact h ⟨old, hold, hsame, by simpa [isOpaque] using hopaque (by rw [hlength]; rfl), hlength⟩

/-- An update with an opaque LSA. -/
def opaqueUpdate (seqnum : UInt8) (checksum body : List UInt8) : List UInt8 :=
  [2, 4, 0, .ofNat (48 + body.length), 0, 0, 0, 2, 0, 0, 0, 0, 0, 0, 0, 0, 0, 0, 0, 0, 0, 0, 0, 0, 0, 0, 0, 1] ++
    [0, 1, 0, 10, 9, 0, 0, 0, 0, 0, 0, 2, 128, 0, 0, seqnum] ++ checksum ++ [0, .ofNat (20 + body.length)] ++ body

/-- An instance of that LSA. -/
def opaqueLsa (address : Nat) : LsaRef := ⟨⟨10, 0x09000000, 2⟩, address⟩

def emptyLsdb (length : UInt16) : Ospf where
  routerId := 1
  areas := [{ pointer := 0, oiflist := [] }]
  memory lsa := { lsAge := 1, lsSeqnum := .ofNat (0x80000001 + lsa.address), length, area := some 0 }

/-- The instance 0 is in the database, and the instance 1 arrives. -/
def secondLsa (length : UInt16) : Ospf :=
  (ospfFlood ⟨0, fun _ _ => 0, true⟩ (emptyLsdb length) ⟨2, 0, 0, false, false⟩ none (opaqueLsa 0)).1.set (opaqueLsa 1)
    ({ · with received := true })

/-- The copy of an LSA with a body is compared. -/
theorem installAsserts_body : copyOf (secondLsa 24) (opaqueLsa 1) = some (opaqueLsa 0) ∧
    InstallAsserts 2000000 (fun _ => [0, 0, 0, 0]) (secondLsa 24) (some 0) (opaqueLsa 1) := by
  refine ⟨by decide, (installAsserts_iff (opaqueUpdate 2 [155, 180] [0, 0, 0, 0])
    ((opaqueUpdate 2 [155, 180] [0, 0, 0, 0]).drop 28) (by decide +kernel) rfl (by decide +kernel)
    ⟨rfl, by decide, by decide⟩ ⟨_, mem_cons_self .., rfl⟩).2 ?_⟩
  rintro ⟨old, -, -, -, hlength⟩
  exact absurd hlength (by decide)

theorem installAsserts_not_empty :
    ospfPacketExamin (opaqueUpdate 1 [149, 191] []) ∧ ospfPacketExamin (opaqueUpdate 2 [147, 192] []) ∧
      MadeOf (emptyLsdb 20) 0 ((opaqueUpdate 1 [149, 191] []).drop 28) (opaqueLsa 0) ∧
      MadeOf (secondLsa 20) 0 ((opaqueUpdate 2 [147, 192] []).drop 28) (opaqueLsa 1) ∧
      ¬InstallAsserts 2000000 (fun _ => []) (secondLsa 20) (some 0) (opaqueLsa 1) :=
  ⟨by decide +kernel, by decide +kernel, ⟨rfl, by decide, by decide⟩, ⟨rfl, by decide, by decide⟩,
    fun h => h.2.1 (opaqueLsa 0) (by decide) (by decide)⟩

end Tarpan.Ospfd.Flood
