/-
Flooding of OSPF (ospfd/ospf_flood.c, ospfd/ospf_lsa.c). A new instance of an LSA is put on the retransmission lists of
the neighbours that are to get it, the instance of the database leaves these lists, and the new one takes its place.
-/
import Tarpan.Ospfd.Lsa

namespace Tarpan.Ospfd.Flood

/-! ## Memory -/

/-- A pointer to an instance of an LSA. What all instances have in common is known from the pointer. -/
structure LsaRef where
  key : LsaKey
  address : Nat
  deriving DecidableEq

/-- The rest of `struct ospf_lsa`; `area` and `oi` point to an area and an interface. -/
structure Instance where
  lsAge : UInt16 := 0
  options : UInt8 := 0
  lsSeqnum : UInt32
  checksum : UInt16 := 0
  length : UInt16 := 20
  tvRecv : Int := 0
  self : Bool := false
  selfChecked : Bool := false
  received : Bool := false
  prematureAge : Bool := false
  area : Option Nat := none
  oi : Option Nat := none

abbrev Memory := LsaRef → Instance

/-- The instance as the comparisons read it. -/
def lsaOf (m : Memory) (lsa : LsaRef) : OspfLsa where
  address := lsa.address
  data :=
    { lsAge := (m lsa).lsAge, options := (m lsa).options, type := lsa.key.type, id := lsa.key.id,
      advRouter := lsa.key.advRouter, lsSeqnum := (m lsa).lsSeqnum, checksum := (m lsa).checksum,
      length := (m lsa).length }
  tvRecv := (m lsa).tvRecv

/-- `ospf_lsa_more_recent`. -/
def moreRecent (now : Int) (m : Memory) (l1 l2 : Option LsaRef) : Int :=
  ospfLsaMoreRecent now (l1.map (lsaOf m)) (l2.map (lsaOf m))

/-- `struct ospf_lsdb`: the addresses of the instances. -/
abbrev Table := LsaKey → Option Nat

/-- `ospf_lsdb_lookup`. -/
def lookup (lsdb : Table) (key : LsaKey) : Option LsaRef := (lsdb key).map (LsaRef.mk key)

/-- `ospf_lsdb_add`. -/
def lsdbAdd (lsdb : Table) (lsa : LsaRef) : Table := Function.update lsdb lsa.key (some lsa.address)

/-- `ospf_lsdb_delete`. -/
def lsdbDelete (lsdb : Table) (lsa : LsaRef) : Table :=
  if lsdb lsa.key = some lsa.address then Function.update lsdb lsa.key none else lsdb

/-! ## Neighbours, interfaces and areas -/

/-- The states `NSM_*` of a neighbour. -/
inductive NsmState where
  | dependUpon | deleted | down | attempt | init | twoWay | exStart | exchange | loading | full
  deriving DecidableEq

def NsmState.toNat : NsmState → Nat
  | dependUpon => 0
  | deleted => 1
  | down => 2
  | attempt => 3
  | init => 4
  | twoWay => 5
  | exStart => 6
  | exchange => 7
  | loading => 8
  | full => 9

/-- `struct ospf_neighbor`; `isSelf` is that of `oi->nbr_self`. -/
structure Nbr where
  routerId : UInt32
  address : UInt32
  state : NsmState
  isSelf : Bool := false
  optionO : Bool := false
  lsReq : Table := fun _ => none
  lsReqLast : Option LsaRef := none
  lsRxmt : Table := fun _ => none

/-- `OSPF_IFTYPE_*`. -/
inductive IfType where
  | none | pointToPoint | broadcast | nbma | pointToMultipoint | virtualLink | loopback
  deriving DecidableEq

/-- A Link State Update packet for an LSA: to one neighbour, or to those of the interface. -/
inductive Update where
  | direct (address : UInt32) (lsa : LsaRef)
  | indirect (lsa : LsaRef)

/-- `struct ospf_interface`; `enabled` is `ospf_if_is_enable`, and `backup` the state `ISM_Backup`. -/
structure Oi where
  pointer : Nat
  address : UInt32 := 0
  type : IfType := .broadcast
  enabled : Bool := true
  backup : Bool := false
  nbrs : List Nbr
  lsAck : List LsaRef := []
  sent : List Update := []

/-- `OSPF_AREA_*`. -/
inductive ExternalRouting where
  | default | stub | nssa | typeMax
  deriving DecidableEq

/-- `struct ospf_area`; `backbone` is that of the area 0. -/
structure Area where
  pointer : Nat
  backbone : Bool := true
  externalRouting : ExternalRouting := .default
  lsdb : Table := fun _ => none
  oiflist : List Oi

/-- `struct ospf`. `opaqueBlocked` is `IS_OPAQUE_LSA_ORIGINATION_BLOCKED`, and `ospf->oiflist` has the interfaces of all
areas. -/
structure Ospf where
  routerId : UInt32
  opaqueBlocked : Bool := false
  lsdb : Table := fun _ => none
  areas : List Area
  memory : Memory

/-- What a call finds outside: the time, what `ospf_lsa_checksum` computes, and whether the part of the installation
that depends on the type succeeds. -/
structure Env where
  now : Int
  checksum : LsaRef → Instance → UInt16
  installs : Bool

/-- The neighbour that an LSA comes from. -/
structure Sender where
  routerId : UInt32
  area : Nat
  oi : Nat
  isDr : Bool := false
  isBdr : Bool := false

def Ospf.mapOis (s : Ospf) (f : Area → Oi → Oi) : Ospf :=
  { s with areas := s.areas.map fun area => { area with oiflist := area.oiflist.map (f area) } }

def Ospf.anyOi (s : Ospf) (p : Area → Oi → Bool) : Bool := s.areas.any fun area => area.oiflist.any (p area)

def Ospf.set (s : Ospf) (lsa : LsaRef) (f : Instance → Instance) : Ospf :=
  { s with memory := Function.update s.memory lsa (f (s.memory lsa)) }

/-- `IS_OPAQUE_LSA`. -/
def isOpaque (key : LsaKey) : Bool := key.type = 9 ∨ key.type = 10 ∨ key.type = 11

/-- `OSPF_AS_EXTERNAL_LSA` and `OSPF_OPAQUE_AS_LSA`. -/
def isAs (key : LsaKey) : Bool := key.type = 5 ∨ key.type = 11

/-! ## The lists of a neighbour -/

def ospfLsRequestDelete (nbr : Nbr) (lsa : LsaRef) : Nbr :=
  { nbr with
    lsReqLast := if nbr.lsReqLast = some lsa then none else nbr.lsReqLast
    lsReq := lsdbDelete nbr.lsReq lsa }

section
variable (now : Int) (s : Ospf) (inbr : Option Sender) (lsa : LsaRef)

def ospfLsRetransmitAdd (m : Memory) (nbr : Nbr) (lsa : LsaRef) : Nbr :=
  let old := lookup nbr.lsRxmt lsa.key
  if moreRecent now m old (some lsa) < 0 then
    { nbr with lsRxmt := lsdbAdd (old.elim nbr.lsRxmt (lsdbDelete nbr.lsRxmt)) lsa }
  else nbr

def ospfLsRetransmitDelete (nbr : Nbr) (lsa : LsaRef) : Nbr :=
  if (lookup nbr.lsRxmt lsa.key).isSome then { nbr with lsRxmt := lsdbDelete nbr.lsRxmt lsa } else nbr

/-- The Link state request list, where the adjacency is not full; the second part tells whether the neighbour is still
to be considered. `ospf_check_nbr_loading` only schedules events. -/
def examineRequest (m : Memory) (lsa : LsaRef) (onbr : Nbr) : Nbr × Bool :=
  match lookup onbr.lsReq lsa.key with
  | none => (onbr, true)
  | some lsReq =>
    let ret := moreRecent now m (some lsReq) (some lsa)
    if ret > 0 then (onbr, false)
    else if ret = 0 then (ospfLsRequestDelete onbr lsReq, false)
    else (ospfLsRequestDelete onbr lsReq, true)

/-- The checks for opaque LSAs. -/
def skipsOpaque (onbr : Nbr) : Bool :=
  isOpaque lsa.key ∧ (¬onbr.optionO ∨ (s.opaqueBlocked ∧ (s.memory lsa).self ∧ onbr.state = .full))

/-- The new LSA was received from this neighbour, or flooding starts here and it is the neighbour's own LSA. -/
def comesFrom (onbr : Nbr) : Bool := (inbr.elim lsa.key.advRouter Sender.routerId) = onbr.routerId

/-- The loop over the neighbours of an interface; the second part is `retx_flag`. -/
def floodNbr (onbr : Nbr) : Nbr × Bool :=
  if onbr.state.toNat < NsmState.exchange.toNat then (onbr, false)
  else
    let examined :=
      if onbr.state.toNat < NsmState.full.toNat then examineRequest now s.memory lsa onbr else (onbr, true)
    if ¬examined.2 then (examined.1, false)
    else if skipsOpaque s lsa examined.1 then (examined.1, false)
    else if comesFrom inbr lsa examined.1 then (examined.1, false)
    else (ospfLsRetransmitAdd now s.memory examined.1 lsa, true)

/-! ## Flooding -/

/-- The Link State Update packets of `ospf_flood_through_interface`. -/
def sendUpdate (oi : Oi) (lsa : LsaRef) : Oi :=
  let updates :=
    if oi.type = .nbma then
      (oi.nbrs.filter fun nbr => !nbr.isSelf && NsmState.exchange.toNat ≤ nbr.state.toNat).map (.direct ·.address lsa)
    else [.indirect lsa]
  { oi with sent := oi.sent ++ updates }

def ospfFloodThroughInterface (oi : Oi) : Oi × Bool :=
  if ¬oi.enabled then (oi, false)
  else
    let flooded := oi.nbrs.map (floodNbr now s inbr lsa)
    let here := inbr.any fun nbr => nbr.oi = oi.pointer
    let oi := { oi with nbrs := flooded.map Prod.fst }
    if ¬flooded.any Prod.snd then (oi, here)
    else if here ∧ (inbr.any (fun nbr => nbr.isDr || nbr.isBdr) ∨ oi.backup) then (oi, true)
    else (sendUpdate oi lsa, false)

/-- The interfaces of `ospf_flood_through_area`. -/
def inArea (a : Option Nat) (area : Area) (oi : Oi) : Bool :=
  a = some area.pointer ∧ ¬(¬area.backbone ∧ oi.type = .virtualLink) ∧
    ¬(lsa.key.type = 9 ∧ (s.memory lsa).oi ≠ some oi.pointer)

/-- The areas of `ospf_flood_through_as`. -/
def takesExternal (area : Area) : Bool :=
  match area.externalRouting with
  | .nssa => lsa.key.type = 7 ∧ (s.memory lsa).area = some area.pointer
  | .typeMax => false
  | .stub => false
  | .default => lsa.key.type ≠ 7

/-- The interfaces of `ospf_flood_through_as`. -/
def inAs (area : Area) (oi : Oi) : Bool := takesExternal s lsa area ∧ oi.type ≠ .virtualLink

/-- The loops over the interfaces; the second part is `lsa_ack_flag`. -/
def floodThroughOis (scope : Area → Oi → Bool) (inbr : Option Sender) (lsa : LsaRef) : Ospf × Bool :=
  (s.mapOis fun area oi => if scope area oi then (ospfFloodThroughInterface now s inbr lsa oi).1 else oi,
    s.anyOi fun area oi => scope area oi && (ospfFloodThroughInterface now s inbr lsa oi).2)

def ospfFloodThroughArea (area : Option Nat) (inbr : Option Sender) (lsa : LsaRef) : Ospf × Bool :=
  floodThroughOis now s (inArea s lsa area) inbr lsa

def ospfFloodThroughAs : Ospf × Bool := floodThroughOis now s (inAs s lsa) inbr lsa

def ospfFloodThrough : Ospf × Bool :=
  if isAs lsa.key then ospfFloodThroughAs now s inbr lsa
  else ospfFloodThroughArea now s (s.memory lsa).area inbr lsa

end

/-! ## The instance of the database -/

/-- `ospf_ls_retransmit_delete_nbr_if`, for one neighbour. -/
def deleteNbr (m : Memory) (lsa : LsaRef) (nbr : Nbr) : Nbr :=
  match lookup nbr.lsRxmt lsa.key with
  | some lsr => if (m lsr).lsSeqnum = (m lsa).lsSeqnum then ospfLsRetransmitDelete nbr lsr else nbr
  | none => nbr

def ospfLsRetransmitDeleteNbrIf (m : Memory) (lsa : LsaRef) (oi : Oi) : Oi :=
  if oi.enabled then { oi with nbrs := oi.nbrs.map (deleteNbr m lsa) } else oi

section
variable (s : Ospf) (lsa : LsaRef)

def ospfLsRetransmitDeleteNbrArea (a : Option Nat) (lsa : LsaRef) : Ospf :=
  s.mapOis fun area oi => if a = some area.pointer then ospfLsRetransmitDeleteNbrIf s.memory lsa oi else oi

def ospfLsRetransmitDeleteNbrAs : Ospf := s.mapOis fun _ oi => ospfLsRetransmitDeleteNbrIf s.memory lsa oi

/-- The copy of the database leaves the lists, all of them or those of an area. -/
def deleteCopy (a : Option Nat) (lsa : LsaRef) : Ospf :=
  if isAs lsa.key then ospfLsRetransmitDeleteNbrAs s lsa else ospfLsRetransmitDeleteNbrArea s a lsa

/-- What `ospf_lsa_is_self_originated` returns. -/
def isSelfOriginated : Bool :=
  (s.memory lsa).self ∨ (¬(s.memory lsa).selfChecked ∧
    (lsa.key.advRouter = s.routerId ∨ (lsa.key.type = 1 ∧ lsa.key.id = s.routerId) ∨
      (lsa.key.type = 2 ∧ s.anyOi fun _ oi => oi.type ≠ .virtualLink ∧ lsa.key.id = oi.address)))

/-- The flags that `ospf_lsa_is_self_originated` sets. -/
def checkSelf : Ospf := s.set lsa ({ · with self := isSelfOriginated s lsa, selfChecked := true })

/-- Whether an LSA is in the database of its area. -/
def ofArea : Bool := ¬isAs lsa.key ∧ ¬(lsa.key.type = 7 ∧ (s.memory lsa).area = none)

/-- `ospf_lsdb_lookup` in the database of an LSA. -/
def copyOf : Option LsaRef :=
  if ofArea s lsa then
    (s.areas.find? fun area => (s.memory lsa).area = some area.pointer).bind fun area => lookup area.lsdb lsa.key
  else lookup s.lsdb lsa.key

/-- `ospf_lsdb_add` to the database of an LSA. -/
def addToLsdb : Ospf :=
  if ofArea s lsa then
    { s with areas := s.areas.map fun area =>
        if (s.memory lsa).area = some area.pointer then { area with lsdb := lsdbAdd area.lsdb lsa } else area }
  else { s with lsdb := lsdbAdd s.lsdb lsa }

/-- `ospf_discard_from_db`, as far as lists of neighbours are concerned. -/
def ospfDiscardFromDb (old : LsaRef) : Ospf := deleteCopy s (s.memory old).area old

/-- The sequence number after `OSPF_MAX_SEQUENCE_NUMBER`. -/
def wraps : Bool := (s.memory lsa).lsSeqnum - 1 = 0x7fffffff

/-- Premature aging of an own LSA whose sequence number wraps. -/
def ageWrapped (now : Int) (s : Ospf) (lsa : LsaRef) : Ospf :=
  if wraps s lsa then
    (checkSelf s lsa).set lsa fun i =>
      { i with
        lsSeqnum := 0x7fffffff
        prematureAge := i.prematureAge || !isLsaMaxage now (lsaOf s.memory lsa)
        lsAge := 3600 }
  else s

/-- The checksum of an own LSA. -/
def sumSelf (env : Env) (s : Ospf) (lsa : LsaRef) : Ospf :=
  if (s.memory lsa).self then s.set lsa fun i => { i with checksum := env.checksum lsa i } else s

/-- An own LSA of a link goes out of its interface. -/
def setOi (oi : Option Nat) (lsa : LsaRef) : Ospf :=
  if lsa.key.type = 9 ∧ (s.memory lsa).self then s.set lsa ({ · with oi }) else s

end

def ospfLsaInstall (env : Env) (s : Ospf) (oi : Option Nat) (lsa : LsaRef) : Ospf × Option LsaRef :=
  let old := copyOf s lsa
  if wraps s lsa ∧ ¬isSelfOriginated s lsa then (checkSelf s lsa, old)
  else
    let s := ageWrapped env.now s lsa
    let s := old.elim s (ospfDiscardFromDb s)
    let s := setOi (addToLsdb (sumSelf env s lsa) lsa) oi lsa
    (s, if env.installs then some lsa else none)

/-! ## Received and own LSAs -/

/-- An instance that arrives less than `OSPF_MIN_LS_ARRIVAL` after the one of the database. -/
def tooEarly (now : Int) (s : Ospf) (current : Option LsaRef) : Bool :=
  current.any fun lsa =>
    ¬((s.memory lsa).self ∧ (s.memory lsa).lsAge = 0 ∧ (s.memory lsa).lsSeqnum = 0x80000001) ∧
      now - (s.memory lsa).tvRecv < 1000000

def ospfFloodDelayedLsaAck (s : Ospf) (inbr : Sender) (lsa : LsaRef) : Ospf :=
  s.mapOis fun _ oi =>
    if oi.pointer = inbr.oi ∧ ¬(oi.backup ∧ ¬inbr.isDr) then { oi with lsAck := oi.lsAck ++ [lsa] } else oi

/-- The end of `ospf_flood`, with the acknowledgement if it is due. -/
def acknowledge (nbr : Sender) (lsaAckFlag : Bool) (installed : Ospf × Option LsaRef) : Ospf × Int :=
  match installed.2 with
  | none => (installed.1, -1)
  | some new => (if lsaAckFlag then ospfFloodDelayedLsaAck installed.1 nbr new else installed.1, 0)

/-- `ospf_flood`, up to `ospf_process_self_originated_lsa`, which originates an LSA of this router anew or flushes
it. -/
def ospfFlood (env : Env) (s : Ospf) (nbr : Sender) (current : Option LsaRef) (new : LsaRef) : Ospf × Int :=
  if tooEarly env.now s current then (s, -1)
  else
    let flooded := ospfFloodThrough env.now s (some nbr) new
    let s := current.elim flooded.1 (deleteCopy flooded.1 (some nbr.area))
    let s := checkSelf (s.set new ({ · with received := true })) new
    acknowledge nbr flooded.2 (ospfLsaInstall env s (some nbr.oi) new)

/-- An LSA of this router is installed and flooded, as the `ospf_*_lsa_originate` and `ospf_*_lsa_refresh` do, through
the area or the domain. A refresh first takes the old instance from the lists, as the installation does. -/
def originate (env : Env) (s : Ospf) (domain : Bool) (oi : Option Nat) (new : LsaRef) : Ospf :=
  let s := (ospfLsaInstall env s oi new).1
  if domain then (ospfFloodThroughAs env.now s none new).1
  else (ospfFloodThroughArea env.now s (s.memory new).area none new).1

/-- `ospf_lsa_flush_area` and `ospf_lsa_flush_as`. -/
def ospfLsaFlush (now : Int) (s : Ospf) (domain : Bool) (lsa : LsaRef) : Ospf :=
  let s := s.set lsa ({ · with lsAge := 3600, tvRecv := now })
  if domain then (ospfFloodThroughAs now s none lsa).1
  else (ospfFloodThroughArea now s (s.memory lsa).area none lsa).1

end Tarpan.Ospfd.Flood
