/-
Interned attributes (bgp_attr.c, `bgp_attr_intern` and `bgp_attr_unintern`). An attribute is a record with pointers to
an AS path, communities, a Tarpan attribute, extended communities, a cluster list and attributes that are not known;
each of these is interned in a table of its own, and the record itself in `attrhash`. Objects stand with their
addresses, so that pointers are equal where the objects are. Messages of Tarpan attributes are in
Tarpan.Bgpd.Tarpan.Store.
-/
import Tarpan.Bgpd.Aspath.Canonical
import Tarpan.Bgpd.Community
import Tarpan.Bgpd.Refcount
import Tarpan.Bgpd.Tarpan.Store

namespace Tarpan.Bgpd

open Base Lib Option List Bool

/-! ## The objects -/

structure Object (α : Type) where
  addr : Addr
  val : α
  deriving DecidableEq

/-- The octets of an object are compared, and their number. -/
def objectCmp {α : Type} [DecidableEq α] (x y : Object α) : Bool := x.val == y.val

theorem objectCmp_equivalence {α : Type} [DecidableEq α] : Equivalence fun x y : Object α => objectCmp x y = true := by
  unfold objectCmp
  simp only [beq_iff_eq]
  exact ⟨fun _ => rfl, fun h => h.symm, fun h h' => h.trans h'⟩

/-- The loop of `community_hash_make` and `ecommunity_hash_make`. -/
def octetSum (octets : List UInt8) : UInt32 := octets.foldl (fun key c => key + c.toUInt32) 0

/-- `struct community`, `struct ecommunity`, `struct cluster_list` and `struct transit`. -/
abbrev CommunityObject := Object (List UInt32)
abbrev EcommunityObject := Object (List (List UInt8))
abbrev ClusterObject := Object (List UInt32)
abbrev TransitObject := Object (List UInt8)

def communityHashMake (com : CommunityObject) : UInt32 := octetSum (wordOctets com.val)
def ecommunityHashMake (ecom : EcommunityObject) : UInt32 := octetSum ecom.val.flatten
def clusterHashKeyMake (cluster : ClusterObject) : UInt32 := jhash (wordOctets cluster.val) 0
def transitHashKeyMake (transit : TransitObject) : UInt32 := jhash transit.val 0

/-! ## Records -/

/-- `struct attr_extra` with what it points to. -/
structure ExtraRecord where
  mpNexthopGlobal : In6Addr
  mpNexthopLocal : In6Addr
  ecommunity : Option EcommunityObject
  cluster : Option ClusterObject
  transit : Option TransitObject
  mpNexthopGlobalIn : UInt32
  aggregatorAddr : UInt32
  originatorId : UInt32
  weight : UInt32
  aggregatorAs : UInt32
  mpNexthopLen : UInt8
  deriving DecidableEq

/-- `struct attr` with what it points to. -/
structure AttrRecord where
  aspath : Option AspathObject
  community : Option CommunityObject
  tarpan : Option TarpanAttr
  extra : Option ExtraRecord
  flag : UInt32
  nexthop : UInt32
  med : UInt32
  localPref : UInt32
  origin : UInt8
  deriving DecidableEq

namespace AttrRecord

/-- The pointers of the extra attributes, where there are any. -/
def ecommunity (attr : AttrRecord) : Option EcommunityObject := attr.extra.bind (·.ecommunity)
def cluster (attr : AttrRecord) : Option ClusterObject := attr.extra.bind (·.cluster)
def transit (attr : AttrRecord) : Option TransitObject := attr.extra.bind (·.transit)

/-- An address as the word that lies in memory. -/
def sAddr (addr : UInt32) : UInt32 := jhashWord (beBytes 4 addr.toNat) 0

/-- The first part of `attrhash_key_make` for the extra attributes. -/
def extraKey (extra : ExtraRecord) (key : UInt32) : UInt32 :=
  let key := jhash1word extra.aggregatorAs key
  let key := jhash1word (sAddr extra.aggregatorAddr) key
  let key := jhash1word extra.weight key
  let key := jhash1word (sAddr extra.mpNexthopGlobalIn) key
  jhash1word (sAddr extra.originatorId) key

/-- The key of what a pointer points to is mixed in, where it is not null. -/
def mixPointer {α : Type} (hashKey : α → UInt32) (p : Option α) (key : UInt32) : UInt32 :=
  match p with
  | none => key
  | some x => jhash1word (hashKey x) key

/-- The second part. -/
def extraPointersKey (extra : ExtraRecord) (key : UInt32) : UInt32 :=
  let key := mixPointer ecommunityHashMake extra.ecommunity key
  let key := mixPointer clusterHashKeyMake extra.cluster key
  let key := mixPointer transitHashKeyMake extra.transit key
  let key := jhash1word extra.mpNexthopLen.toUInt32 key
  let key := jhash extra.mpNexthopGlobal.octets key
  jhash extra.mpNexthopLocal.octets key

/-- `attrhash_key_make`; `keyMake` is the key of the printed AS path. -/
def attrhashKeyMake (keyMake : Aspath → UInt32) (attr : AttrRecord) : UInt32 :=
  let key := jhash1word attr.origin.toUInt32 0
  let key := jhash1word (sAddr attr.nexthop) key
  let key := jhash1word attr.med key
  let key := jhash1word attr.localPref key
  let key := key + attr.origin.toUInt32 + sAddr attr.nexthop + attr.med + attr.localPref
  let key := attr.extra.elim key (extraKey · key)
  let key := mixPointer (aspathKeyMake keyMake) attr.aspath key
  let key := mixPointer communityHashMake attr.community key
  let key := mixPointer tarpanHashMake attr.tarpan key
  attr.extra.elim key (extraPointersKey · key)

/-- The comparison of the extra attributes in `attrhash_cmp`. -/
def extraSame (ae1 ae2 : ExtraRecord) : Bool :=
  ae1.aggregatorAs == ae2.aggregatorAs && ae1.aggregatorAddr == ae2.aggregatorAddr && ae1.weight == ae2.weight
    && ae1.mpNexthopLen == ae2.mpNexthopLen && ae1.mpNexthopGlobal == ae2.mpNexthopGlobal
    && ae1.mpNexthopLocal == ae2.mpNexthopLocal && ae1.mpNexthopGlobalIn == ae2.mpNexthopGlobalIn
    && ae1.ecommunity == ae2.ecommunity && ae1.cluster == ae2.cluster && ae1.transit == ae2.transit
    && ae1.originatorId == ae2.originatorId

def attrhashCmp (attr1 attr2 : AttrRecord) : Bool :=
  if attr1.flag == attr2.flag && attr1.origin == attr2.origin && attr1.nexthop == attr2.nexthop
      && attr1.aspath == attr2.aspath && attr1.community == attr2.community && attr1.tarpan == attr2.tarpan
      && attr1.med == attr2.med && attr1.localPref == attr2.localPref then
    match attr1.extra, attr2.extra with
    | some ae1, some ae2 => extraSame ae1 ae2
    | none, none => true
    | _, _ => false
  else false

theorem extraSame_iff {ae1 ae2 : ExtraRecord} : extraSame ae1 ae2 = true ↔ ae1 = ae2 := by
  cases ae1
  cases ae2
  simp only [extraSame, and_eq_true, beq_iff_eq, ExtraRecord.mk.injEq]
  tauto

theorem attrhashCmp_iff {attr1 attr2 : AttrRecord} : attrhashCmp attr1 attr2 = true ↔ attr1 = attr2 := by
  constructor
  · intro h
    unfold attrhashCmp at h
    split at h
    · rename_i hflds
      simp only [and_eq_true, beq_iff_eq] at hflds
      have hex : attr1.extra = attr2.extra := by
        split at h
        · rename_i h1 h2
          rw [h1, h2, extraSame_iff.1 h]
        · rename_i h1 h2
          rw [h1, h2]
        · cases h
      obtain ⟨⟨⟨⟨⟨⟨⟨hflag, horg⟩, hnh⟩, hasp⟩, hcom⟩, htar⟩, hmed⟩, hlp⟩ := hflds
      cases attr1
      cases attr2
      rw [mk.injEq]
      exact ⟨hasp, hcom, htar, hex, hflag, hnh, hmed, hlp, horg⟩
    · cases h
  · rintro rfl
    unfold attrhashCmp
    simp only [beq_self_eq_true]
    cases attr1.extra with
    | none => rfl
    | some extra => exact extraSame_iff.2 rfl

end AttrRecord

/-! ## The tables -/

abbrev AttrObject := Object AttrRecord

structure AttrStores where
  ashash : InternTable AspathObject := .empty
  comhash : InternTable CommunityObject := .empty
  tarpanHash : InternTable TarpanAttr := .empty
  ecomhash : InternTable EcommunityObject := .empty
  clusterHash : InternTable ClusterObject := .empty
  transitHash : InternTable TransitObject := .empty
  attrhash : InternTable AttrObject := .empty

/-- Where the copies go that `bgp_attr_hash_alloc` and `cluster_hash_alloc` make. -/
structure NewMemory where
  attr : Addr
  cluster : Addr

def communityIntern := intern communityHashMake objectCmp
def communityUnintern := unintern communityHashMake objectCmp
def ecommunityIntern := intern ecommunityHashMake objectCmp
def ecommunityUnintern := unintern ecommunityHashMake objectCmp

/-- `cluster_intern`: what is entered is a copy. -/
def clusterIntern (addr : Addr) (t : InternTable ClusterObject) (cluster : ClusterObject) :
    Option (ClusterObject × InternTable ClusterObject) :=
  internAny clusterHashKeyMake objectCmp t ⟨addr, cluster.val⟩

def clusterUnintern := uninternAny clusterHashKeyMake objectCmp
def transitIntern := internAny transitHashKeyMake objectCmp
def transitUnintern := uninternAny transitHashKeyMake objectCmp

section Functions
variable (keyMake : Aspath → UInt32)

def aspathUnintern := unintern (aspathKeyMake keyMake) aspathObjectCmp

/-- The functions that `attrhash` is created with. -/
def attrKey (attr : AttrObject) : UInt32 := attr.val.attrhashKeyMake keyMake
def attrCmp (attr1 attr2 : AttrObject) : Bool := attr1.val.attrhashCmp attr2.val

def bgpAttrIntern (st : AttrStores) (attr : AttrRecord) (mem : NewMemory) : Option (AttrObject × AttrStores) := do
  let (aspath, ashash) ← takePointer (aspathIntern keyMake) st.ashash attr.aspath
  let (community, comhash) ← takePointer communityIntern st.comhash attr.community
  let (tarpan, tarpanHash) ← takePointer (intern tarpanHashMake tarpanCmp) st.tarpanHash attr.tarpan
  let (ecommunity, ecomhash) ← takePointer ecommunityIntern st.ecomhash attr.ecommunity
  let (cluster, clusterHash) ← takePointer (clusterIntern mem.cluster) st.clusterHash attr.cluster
  let (transit, transitHash) ← takePointer transitIntern st.transitHash attr.transit
  let extra := attr.extra.map fun extra => { extra with ecommunity, cluster, transit }
  let (find, attrhash) ← internAny (attrKey keyMake) attrCmp st.attrhash
    ⟨mem.attr, { attr with aspath, community, tarpan, extra }⟩
  return (find, { ashash, comhash, tarpanHash, ecomhash, clusterHash, transitHash, attrhash })

/-- `bgp_attr_unintern_sub`, as far as it goes to the tables. -/
def AttrStores.bgpAttrUninternSub (st : AttrStores) (attr : AttrRecord) : Option AttrStores := do
  let ashash ← dropPointer (aspathUnintern keyMake) st.ashash attr.aspath
  let comhash ← dropPointer communityUnintern st.comhash attr.community
  let tarpanHash ← dropPointer (unintern tarpanHashMake tarpanCmp) st.tarpanHash attr.tarpan
  let ecomhash ← dropPointer ecommunityUnintern st.ecomhash attr.ecommunity
  let clusterHash ← dropPointer (fun t x => some (clusterUnintern t x)) st.clusterHash attr.cluster
  let transitHash ← dropPointer (fun t x => some (transitUnintern t x)) st.transitHash attr.transit
  return { st with ashash, comhash, tarpanHash, ecomhash, clusterHash, transitHash }

def bgpAttrUnintern (st : AttrStores) (attr : AttrObject) : Option AttrStores := do
  let attrhash ← unintern (attrKey keyMake) attrCmp st.attrhash attr
  AttrStores.bgpAttrUninternSub keyMake { st with attrhash } attr.val

end Functions

/-! ## Runs -/

/-- A call from elsewhere for an object of one of the tables: a reference is taken, with `x_intern` where it is the
first, or dropped with `x_unintern`. -/
inductive RefCall (α : Type) where
  | take (x : α)
  | drop (x : α)

/-- The calls that change the tables. -/
inductive AttrCall where
  | bgpAttrIntern (attr : AttrRecord) (mem : NewMemory)
  | bgpAttrUnintern (attr : AttrObject)
  | aspath (call : RefCall AspathObject)
  | community (call : RefCall CommunityObject)
  | tarpan (call : RefCall TarpanAttr)
  | ecommunity (call : RefCall EcommunityObject)
  | cluster (call : RefCall ClusterObject)
  | transit (call : RefCall TransitObject)

/-- The references that are held: those to interned attributes that calls of `bgp_attr_intern` returned, and those to
other objects from elsewhere than an interned attribute. -/
structure HeldRefs where
  attr : List AttrObject := []
  aspath : List AspathObject := []
  community : List CommunityObject := []
  tarpan : List TarpanAttr := []
  ecommunity : List EcommunityObject := []
  cluster : List ClusterObject := []
  transit : List TransitObject := []

section Calls
variable {α : Type} [DecidableEq α]

/-- The table and the references from elsewhere after a call. -/
def RefCall.exec (intern : InternTable α → α → Option (α × InternTable α))
    (unintern : InternTable α → α → Option (InternTable α)) (t : InternTable α) (held : List α) :
    RefCall α → Option (InternTable α × List α)
  | .take x => (takeRef intern t x).map fun (y, t) => (t, y :: held)
  | .drop x => (unintern t x).map fun t => (t, held.erase x)

/-- Only references that are held are dropped. -/
def RefCall.Valid (held : List α) : RefCall α → Prop
  | .take _ => True
  | .drop x => x ∈ held

end Calls

namespace AttrCall

variable (keyMake : Aspath → UInt32)

def exec (st : AttrStores) (held : HeldRefs) : AttrCall → Option (AttrStores × HeldRefs)
  | .bgpAttrIntern attr mem =>
    (Bgpd.bgpAttrIntern keyMake st attr mem).map fun (find, st) => (st, { held with attr := find :: held.attr })
  | .bgpAttrUnintern attr =>
    (Bgpd.bgpAttrUnintern keyMake st attr).map fun st => (st, { held with attr := held.attr.erase attr })
  | .aspath call =>
    (call.exec (aspathIntern keyMake) (aspathUnintern keyMake) st.ashash held.aspath).map fun (t, l) =>
      ({ st with ashash := t }, { held with aspath := l })
  | .community call =>
    (call.exec communityIntern communityUnintern st.comhash held.community).map fun (t, l) =>
      ({ st with comhash := t }, { held with community := l })
  | .tarpan call =>
    (call.exec (intern tarpanHashMake tarpanCmp) (unintern tarpanHashMake tarpanCmp) st.tarpanHash held.tarpan).map
      fun (t, l) => ({ st with tarpanHash := t }, { held with tarpan := l })
  | .ecommunity call =>
    (call.exec ecommunityIntern ecommunityUnintern st.ecomhash held.ecommunity).map fun (t, l) =>
      ({ st with ecomhash := t }, { held with ecommunity := l })
  | .cluster call =>
    (call.exec (internAny clusterHashKeyMake objectCmp) (fun t x => some (clusterUnintern t x)) st.clusterHash
      held.cluster).map fun (t, l) => ({ st with clusterHash := t }, { held with cluster := l })
  | .transit call =>
    (call.exec transitIntern (fun t x => some (transitUnintern t x)) st.transitHash held.transit).map
      fun (t, l) => ({ st with transitHash := t }, { held with transit := l })

/-- New memory is not in use, and only references that are held are dropped. -/
def Valid (st : AttrStores) (held : HeldRefs) : AttrCall → Prop
  | .bgpAttrIntern _ mem =>
    (∀ attr, 0 < st.attrhash.refcnt attr → attr.addr ≠ mem.attr) ∧
      ∀ cluster, 0 < st.clusterHash.refcnt cluster → cluster.addr ≠ mem.cluster
  | .bgpAttrUnintern attr => 0 < st.attrhash.refcnt attr
  | .aspath call => call.Valid held.aspath
  | .community call => call.Valid held.community
  | .tarpan call => call.Valid held.tarpan
  | .ecommunity call => call.Valid held.ecommunity
  | .cluster call => call.Valid held.cluster
  | .transit call => call.Valid held.transit

end AttrCall

/-- The tables that calls lead to from empty ones, with the references that are held. -/
inductive AttrRun (keyMake : Aspath → UInt32) : AttrStores → HeldRefs → Prop
  | init : AttrRun keyMake {} {}
  | call {st st' : AttrStores} {held held' : HeldRefs} (call : AttrCall) (hrun : AttrRun keyMake st held)
      (hvalid : call.Valid st held) (hexec : call.exec keyMake st held = some (st', held')) : AttrRun keyMake st' held'

/-! ## Every call keeps the ledger -/

section Ledger
variable {keyMake : Aspath → UInt32}

theorem attrCmp_equivalence : Equivalence fun x y => attrCmp x y = true := by
  unfold attrCmp
  simp only [AttrRecord.attrhashCmp_iff]
  exact ⟨fun _ => rfl, fun h => h.symm, fun h h' => h.trans h'⟩

/-- Every reference is accounted for in every table. -/
structure Accounted (keyMake : Aspath → UInt32) (st : AttrStores) (held : HeldRefs) : Prop where
  attr : Counts (attrKey keyMake) attrCmp st.attrhash some held.attr []
  aspath : Counts (aspathKeyMake keyMake) aspathObjectCmp st.ashash
    (fun a : AttrObject => a.val.aspath) held.attr held.aspath
  community : Counts communityHashMake objectCmp st.comhash
    (fun a : AttrObject => a.val.community) held.attr held.community
  tarpan : Counts tarpanHashMake tarpanCmp st.tarpanHash (fun a : AttrObject => a.val.tarpan) held.attr held.tarpan
  ecommunity : Counts ecommunityHashMake objectCmp st.ecomhash (fun a : AttrObject => a.val.ecommunity) held.attr
    held.ecommunity
  cluster : Counts clusterHashKeyMake objectCmp st.clusterHash
    (fun a : AttrObject => a.val.cluster) held.attr held.cluster
  transit : Counts transitHashKeyMake objectCmp st.transitHash
    (fun a : AttrObject => a.val.transit) held.attr held.transit

variable {st : AttrStores} {held : HeldRefs}

theorem Counts.exec {α β : Type} [DecidableEq α] {hashKey : α → UInt32} {hashCmp : α → α → Bool} {t : InternTable α}
    {uses : β → Option α} {refs : List β} {elsewhere : List α} {f : InternTable α → α → Option (α × InternTable α)}
    {g : InternTable α → α → Option (InternTable α)} {call : RefCall α}
    (h : Counts hashKey hashCmp t uses refs elsewhere) (hi : Interns hashKey hashCmp f g)
    (hvalid : call.Valid elsewhere) : ∃ t' elsewhere', call.exec f g t elsewhere = some (t', elsewhere') ∧
      Counts hashKey hashCmp t' uses refs elsewhere' := by
  cases call with
  | take x =>
    obtain ⟨y, t', htake, hadds⟩ := takeRef_adds (x := x) h.ok (hi.adds h.ok)
    exact ⟨t', y :: elsewhere, by rw [RefCall.exec, htake]; rfl, h.hold hadds⟩
  | drop x =>
    obtain ⟨t', hdrop, hremoves⟩ := hi.removes h.ok (h.pos_of_elsewhere hvalid)
    exact ⟨t', elsewhere.erase x, by rw [RefCall.exec, hdrop]; rfl, h.release hvalid hremoves⟩

theorem interns_aspath :
    Interns (aspathKeyMake keyMake) aspathObjectCmp (aspathIntern keyMake) (aspathUnintern keyMake) :=
  interns_intern aspathObjectCmp_equivalence

theorem interns_community : Interns communityHashMake objectCmp communityIntern communityUnintern :=
  interns_intern objectCmp_equivalence

theorem interns_tarpan :
    Interns tarpanHashMake tarpanCmp (intern tarpanHashMake tarpanCmp) (unintern tarpanHashMake tarpanCmp) :=
  interns_intern tarpanCmp_equivalence

theorem interns_ecommunity : Interns ecommunityHashMake objectCmp ecommunityIntern ecommunityUnintern :=
  interns_intern objectCmp_equivalence

theorem interns_cluster : Interns clusterHashKeyMake objectCmp (internAny clusterHashKeyMake objectCmp)
    fun t x => some (clusterUnintern t x) := interns_internAny objectCmp_equivalence

theorem interns_transit : Interns transitHashKeyMake objectCmp transitIntern fun t x => some (transitUnintern t x) :=
  interns_internAny objectCmp_equivalence

theorem clusterIntern_adds {t : InternTable ClusterObject} {addr : Addr} (ht : t.Ok clusterHashKeyMake objectCmp)
    (hnew : ∀ cluster, 0 < t.refcnt cluster → cluster.addr ≠ addr) (x : ClusterObject) :
    ∃ y t', clusterIntern addr t x = some (y, t') ∧ t.Adds clusterHashKeyMake objectCmp (some y) t' := by
  refine interns_cluster.adds ht ?_
  by_contra hne
  exact hnew _ (Nat.pos_of_ne_zero hne) rfl

theorem internAny_attr {t : InternTable AttrObject} {x : AttrObject} (ht : t.Ok (attrKey keyMake) attrCmp)
    (hnew : ∀ attr, 0 < t.refcnt attr → attr.addr ≠ x.addr) :
    ∃ find t', internAny (attrKey keyMake) attrCmp t x = some (find, t') ∧
      t.Adds (attrKey keyMake) attrCmp (some find) t' ∧ find.val = x.val := by
  have hx : t.refcnt x = 0 := by
    by_contra hne
    exact hnew x (Nat.pos_of_ne_zero hne) rfl
  obtain ⟨find, t', hint, hok, hrc, hsame, -⟩ := intern_spec attrCmp_equivalence ht hx
  rw [intern_eq_internAny hx] at hint
  refine ⟨find, t', hint, ⟨hok, fun z => ?_⟩, AttrRecord.attrhashCmp_iff.1 hsame.2⟩
  rw [hrc, update_succ]

/-- What `bgp_attr_intern` puts into the extra attributes is found there. -/
theorem pointer_of_extra {α : Type} [DecidableEq α] {f : InternTable α → α → Option (α × InternTable α)}
    {t t' : InternTable α}
    {extra : Option ExtraRecord} {field : ExtraRecord → Option α} {g : ExtraRecord → ExtraRecord} {y : Option α}
    (h : takePointer f t (extra.bind field) = some (y, t')) (hg : ∀ e, field (g e) = y) :
    (extra.map g).bind field = y := by
  cases extra with
  | none =>
    cases h
    rfl
  | some e => exact hg e

section
variable (h : Accounted keyMake st held)
include h

theorem bgpAttrIntern_accounted (attr : AttrRecord) {mem : NewMemory}
    (hattr : ∀ attr, 0 < st.attrhash.refcnt attr → attr.addr ≠ mem.attr)
    (hnew : ∀ cluster, 0 < st.clusterHash.refcnt cluster → cluster.addr ≠ mem.cluster) :
    ∃ find st', bgpAttrIntern keyMake st attr mem = some (find, st') ∧
      Accounted keyMake st' { held with attr := find :: held.attr } := by
  obtain ⟨aspath, ashash, hashash, hasp⟩ := h.aspath.takes interns_aspath attr.aspath
  obtain ⟨community, comhash, hcomhash, hcom⟩ := h.community.takes interns_community attr.community
  obtain ⟨tarpan, tarpanHash, htarpanHash, htar⟩ := h.tarpan.takes interns_tarpan attr.tarpan
  obtain ⟨ecommunity, ecomhash, hecomhash, hecommunity⟩ := h.ecommunity.takes interns_ecommunity attr.ecommunity
  obtain ⟨cluster, clusterHash, hclusterHash, hclu⟩ := takePointer_adds h.cluster.ok attr.cluster fun x _ =>
    clusterIntern_adds h.cluster.ok hnew x
  obtain ⟨transit, transitHash, htransitHash, htransit⟩ := h.transit.takes interns_transit attr.transit
  obtain ⟨find, attrhash, hattrhash, hfind, hval⟩ := @internAny_attr keyMake st.attrhash
    ⟨mem.attr, { attr with aspath, community, tarpan,
                           extra := attr.extra.map fun extra => { extra with ecommunity, cluster, transit } }⟩
    h.attr.ok hattr
  refine ⟨find, { ashash, comhash, tarpanHash, ecomhash, clusterHash, transitHash, attrhash }, ?_, ?_⟩
  · simp only [bgpAttrIntern, hashash, hcomhash, htarpanHash, hecomhash, hclusterHash, htransitHash, hattrhash,
      bind_eq_bind, bind_some]
    rfl
  have hfecommunity : find.val.ecommunity = ecommunity := by
    rw [hval]
    exact pointer_of_extra hecomhash fun _ => rfl
  have hfcluster : find.val.cluster = cluster := by
    rw [hval]
    exact pointer_of_extra hclusterHash fun _ => rfl
  have hftransit : find.val.transit = transit := by
    rw [hval]
    exact pointer_of_extra htransitHash fun _ => rfl
  exact {
    attr := h.attr.take hfind
    aspath := h.aspath.take (by rw [hval]; exact hasp)
    community := h.community.take (by rw [hval]; exact hcom)
    tarpan := h.tarpan.take (by rw [hval]; exact htar)
    ecommunity := h.ecommunity.take (by rw [hfecommunity]; exact hecommunity)
    cluster := h.cluster.take (by rw [hfcluster]; exact hclu)
    transit := h.transit.take (by rw [hftransit]; exact htransit) }

theorem bgpAttrUnintern_accounted {attr : AttrObject} (hattr : attr ∈ held.attr) :
    ∃ st', bgpAttrUnintern keyMake st attr = some st' ∧
      Accounted keyMake st' { held with attr := held.attr.erase attr } := by
  obtain ⟨attrhash, hattrhash, hremoves⟩ :=
    (interns_intern attrCmp_equivalence).removes h.attr.ok (h.attr.pos_of_uses hattr rfl)
  obtain ⟨ashash, hashash, hasp⟩ := h.aspath.drops interns_aspath hattr
  obtain ⟨comhash, hcomhash, hcom⟩ := h.community.drops interns_community hattr
  obtain ⟨tarpanHash, htarpanHash, htar⟩ := h.tarpan.drops interns_tarpan hattr
  obtain ⟨ecomhash, hecomhash, hecommunity⟩ := h.ecommunity.drops interns_ecommunity hattr
  obtain ⟨clusterHash, hclusterHash, hclu⟩ := h.cluster.drops interns_cluster hattr
  obtain ⟨transitHash, htransitHash, htransit⟩ := h.transit.drops interns_transit hattr
  refine ⟨{ ashash, comhash, tarpanHash, ecomhash, clusterHash, transitHash, attrhash }, ?_, ?_⟩
  · simp only [bgpAttrUnintern, AttrStores.bgpAttrUninternSub, hashash, hcomhash, htarpanHash, hecomhash, hclusterHash,
      htransitHash, hattrhash]
    rfl
  exact {
    attr := h.attr.drop hattr hremoves
    aspath := h.aspath.drop hattr hasp
    community := h.community.drop hattr hcom
    tarpan := h.tarpan.drop hattr htar
    ecommunity := h.ecommunity.drop hattr hecommunity
    cluster := h.cluster.drop hattr hclu
    transit := h.transit.drop hattr htransit }

theorem attrCall_accounted {call : AttrCall} (hvalid : call.Valid st held) :
    ∃ st' held', call.exec keyMake st held = some (st', held') ∧ Accounted keyMake st' held' := by
  cases call with
  | bgpAttrIntern attr mem =>
    obtain ⟨find, st', hint, hst'⟩ := bgpAttrIntern_accounted h attr hvalid.1 hvalid.2
    exact ⟨st', _, congrArg (Option.map _) hint, hst'⟩
  | bgpAttrUnintern attr =>
    have hmem : attr ∈ held.attr := by
      have hcnt := h.attr.refcnt attr
      have hpos : 0 < st.attrhash.refcnt attr := hvalid
      rw [hcnt, count_nil, Nat.add_zero, countP_pos_iff] at hpos
      obtain ⟨b, hb, heq⟩ := hpos
      rwa [← Option.some.inj (of_decide_eq_true heq)]
    obtain ⟨st', hunintern, hst'⟩ := bgpAttrUnintern_accounted h hmem
    exact ⟨st', _, congrArg (Option.map _) hunintern, hst'⟩
  | aspath call =>
    obtain ⟨t, l, hexec, ht⟩ := h.aspath.exec interns_aspath hvalid
    exact ⟨_, _, congrArg (Option.map _) hexec, { h with aspath := ht }⟩
  | community call =>
    obtain ⟨t, l, hexec, ht⟩ := h.community.exec interns_community hvalid
    exact ⟨_, _, congrArg (Option.map _) hexec, { h with community := ht }⟩
  | tarpan call =>
    obtain ⟨t, l, hexec, ht⟩ := h.tarpan.exec interns_tarpan hvalid
    exact ⟨_, _, congrArg (Option.map _) hexec, { h with tarpan := ht }⟩
  | ecommunity call =>
    obtain ⟨t, l, hexec, ht⟩ := h.ecommunity.exec interns_ecommunity hvalid
    exact ⟨_, _, congrArg (Option.map _) hexec, { h with ecommunity := ht }⟩
  | cluster call =>
    obtain ⟨t, l, hexec, ht⟩ := h.cluster.exec interns_cluster hvalid
    exact ⟨_, _, congrArg (Option.map _) hexec, { h with cluster := ht }⟩
  | transit call =>
    obtain ⟨t, l, hexec, ht⟩ := h.transit.exec interns_transit hvalid
    exact ⟨_, _, congrArg (Option.map _) hexec, { h with transit := ht }⟩

end

theorem AttrRun.accounted (h : AttrRun keyMake st held) : Accounted keyMake st held := by
  induction h with
  | init => exact ⟨.empty, .empty, .empty, .empty, .empty, .empty, .empty⟩
  | call call _ hvalid hexec ih =>
    obtain ⟨st', held', hexec', hst'⟩ := attrCall_accounted ih hvalid
    rw [hexec] at hexec'
    cases hexec'
    exact hst'

end Ledger

/-! ## The counts -/

/-- The objects of one table: the count of an object is the sum of the counts of the interned attributes that use it
and of the references from elsewhere, and the object is in the table as long as it is not zero. -/
structure TableRight {α : Type} [DecidableEq α] (hashKey : α → UInt32) (t : InternTable α)
    (uses : AttrObject → Option α)
    (attrhash : InternTable AttrObject) (interned : Finset AttrObject) (elsewhere : List α) : Prop where
  refcnt : ∀ x, t.refcnt x = ∑ attr ∈ interned with uses attr = some x, attrhash.refcnt attr + elsewhere.count x
  inHash : ∀ x, t.hash.Holds ⟨hashKey x, x⟩ ↔ 0 < t.refcnt x

/-- All counts are what they should be, where the attributes in `interned` are in `attrhash`. -/
structure RefcountsRight (keyMake : Aspath → UInt32) (st : AttrStores) (held : HeldRefs)
    (interned : Finset AttrObject) :
    Prop where
  mem_interned : ∀ attr, attr ∈ interned ↔ st.attrhash.hash.Holds ⟨attrKey keyMake attr, attr⟩
  attr : ∀ attr, st.attrhash.refcnt attr = held.attr.count attr
  inHash : ∀ attr, st.attrhash.hash.Holds ⟨attrKey keyMake attr, attr⟩ ↔ 0 < st.attrhash.refcnt attr
  aspath : TableRight (aspathKeyMake keyMake) st.ashash (·.val.aspath) st.attrhash interned held.aspath
  community : TableRight communityHashMake st.comhash (·.val.community) st.attrhash interned held.community
  tarpan : TableRight tarpanHashMake st.tarpanHash (·.val.tarpan) st.attrhash interned held.tarpan
  ecommunity : TableRight ecommunityHashMake st.ecomhash (·.val.ecommunity) st.attrhash interned held.ecommunity
  cluster : TableRight clusterHashKeyMake st.clusterHash (·.val.cluster) st.attrhash interned held.cluster
  transit : TableRight transitHashKeyMake st.transitHash (·.val.transit) st.attrhash interned held.transit

section Right
variable {keyMake : Aspath → UInt32} {st : AttrStores} {held : HeldRefs}

theorem Accounted.attr_count (h : Accounted keyMake st held) (attr : AttrObject) :
    st.attrhash.refcnt attr = held.attr.count attr := by
  rw [h.attr.refcnt, count_nil, Nat.add_zero]
  refine countP_congr fun b _ => ?_
  simp

variable {α : Type}

theorem Accounted.tableRight [DecidableEq α] {hashKey : α → UInt32} {hashCmp : α → α → Bool} {t : InternTable α}
    {uses : AttrObject → Option α} {elsewhere : List α} (h : Accounted keyMake st held)
    (ht : Counts hashKey hashCmp t uses held.attr elsewhere) :
    TableRight hashKey t uses st.attrhash held.attr.toFinset elsewhere := by
  refine ⟨fun x => ?_, ht.ok.live⟩
  rw [ht.refcnt_eq_sum]
  simp [h.attr_count]

theorem Accounted.right (h : Accounted keyMake st held) : RefcountsRight keyMake st held held.attr.toFinset where
  mem_interned attr := by rw [List.mem_toFinset, h.attr.ok.live, h.attr_count, count_pos_iff]
  attr := h.attr_count
  inHash := h.attr.ok.live
  aspath := h.tableRight h.aspath
  community := h.tableRight h.community
  tarpan := h.tableRight h.tarpan
  ecommunity := h.tableRight h.ecommunity
  cluster := h.tableRight h.cluster
  transit := h.tableRight h.transit

/-- In every run all counts are right, and whatever call may come next returns: no assertion fails. -/
theorem attrRun_refcounts (h : AttrRun keyMake st held) : (∃ interned, RefcountsRight keyMake st held interned) ∧
      ∀ call : AttrCall, call.Valid st held → (call.exec keyMake st held).isSome := by
  refine ⟨⟨_, h.accounted.right⟩, fun call hvalid => ?_⟩
  obtain ⟨st', held', hexec, -⟩ := attrCall_accounted h.accounted hvalid
  rw [hexec]
  rfl

/-- A route's attributes with an AS path and a community that are not interned yet. -/
def sampleRecord : AttrRecord where
  aspath := some ⟨16, [assegmentWith .asSequence [65001]]⟩
  community := some ⟨32, [0xffffff01]⟩
  tarpan := none
  extra := none
  flag := BgpAttr.origin.flagBit ||| BgpAttr.asPath.flagBit ||| BgpAttr.communities.flagBit
  nexthop := 1
  med := 0
  localPref := 100
  origin := 0

/-- The attributes are interned, and then a like AS path from elsewhere. -/
def internAttr : AttrCall := .bgpAttrIntern sampleRecord ⟨4096, 8192⟩
def internPath : AttrCall := .aspath (.take ⟨48, [assegmentWith .asSequence [65001]]⟩)

/-- The path of the attributes is found again, and two references to it are held. -/
theorem attrRun_refcounts_shared : ∃ st held, AttrRun (fun _ => 0) st held ∧
    held.aspath.map (fun path => (path.addr, st.ashash.refcnt path)) = [(16, 2)] ∧
    (∃ interned, RefcountsRight (fun _ => 0) st held interned) ∧
      ∀ call : AttrCall, call.Valid st held → (call.exec (fun _ => 0) st held).isSome := by
  have hvalid : internAttr.Valid {} {} := ⟨fun _ h => absurd h (Nat.lt_irrefl 0), fun _ h => absurd h (Nat.lt_irrefl 0)⟩
  obtain ⟨⟨st, held⟩, hexec⟩ := isSome_iff_exists.1 ((@attrRun_refcounts (fun _ => 0) {} {} .init).2 internAttr hvalid)
  have hrun : AttrRun (fun _ => 0) st held := .call internAttr .init hvalid hexec
  obtain ⟨⟨st', held'⟩, hexec'⟩ := isSome_iff_exists.1 ((attrRun_refcounts hrun).2 internPath trivial)
  have hrun' : AttrRun (fun _ => 0) st' held' := .call internPath hrun trivial hexec'
  have hcounts : ((internAttr.exec (fun _ => 0) {} {}).bind fun r => internPath.exec (fun _ => 0) r.1 r.2).map
      (fun r => r.2.aspath.map fun path => (path.addr, r.1.ashash.refcnt path)) = some [(16, 2)] := by
    decide +kernel
  rw [hexec, bind_some, hexec'] at hcounts
  exact ⟨st', held', hrun', some.inj hcounts, attrRun_refcounts hrun'⟩

end Right

end Tarpan.Bgpd
