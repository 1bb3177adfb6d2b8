/-
Path attributes by their values. An attribute set is a function from attributes to values, whatever fields of
`struct attr` hold them; each value has its form on the wire, and the handler of the attribute reads it from there
and changes nothing else.
-/
import Tarpan.Bgpd.Attr.Encode

namespace Tarpan.Bgpd

open Base Lib AttrParser List Option Function Attr

/-! ## Values -/

/-- The value of an attribute; `mark` stands for that of ATOMIC_AGGREGATE, which is empty, and for those that are
not kept in `struct attr`. -/
inductive AttrValue where
  | octet (v : UInt8)
  | path (p : Aspath)
  | number (v : UInt32)
  | mark
  | aggregator (as addr : UInt32)
  | words (l : List UInt32)
  | ecommunity (l : List (List UInt8))
  | message (msg : TarpanMsg)
  deriving DecidableEq

variable {a : BgpAttr} {v : AttrValue} {attr attr' : Attr} {content : TarpanAttr → Option TarpanMsg}

namespace Attr

def field (content : TarpanAttr → Option TarpanMsg) (attr : Attr) : BgpAttr → Option AttrValue
  | .origin => some (.octet attr.origin)
  | .asPath => attr.aspath.map .path
  | .nextHop => some (.number attr.nexthop)
  | .multiExitDisc => some (.number attr.med)
  | .localPref => some (.number attr.localPref)
  | .aggregator => attr.extra.map fun extra => .aggregator extra.aggregatorAs extra.aggregatorAddr
  | .communities => attr.community.map .words
  | .originatorId => attr.extra.map fun extra => .number extra.originatorId
  | .clusterList => (attr.extra.bind (·.cluster)).map .words
  | .extCommunities => (attr.extra.bind (·.ecommunity)).map .ecommunity
  | .tarpan => (attr.tarpan.bind content).map .message
  | .atomicAggregate | .mpReachNlri | .mpUnreachNlri | .as4Path | .as4Aggregator | .asPathlimit => some .mark

/-- The value of an attribute that is there. -/
def value (content : TarpanAttr → Option TarpanMsg) (attr : Attr) (a : BgpAttr) : Option AttrValue :=
  if attr.has a then attr.field content a else none

theorem has_of_value (h : attr.value content a = some v) : attr.has a = true := by
  by_contra hne
  rw [value, if_neg hne] at h
  cases h

end Attr

section FlagBits

theorem or_and_distrib (x y z : UInt32) : (x ||| y) &&& z = x &&& z ||| y &&& z := by
  rw [← UInt32.toBitVec_inj]
  ext i
  simp [Bool.and_or_distrib_right]

theorem or_and_self (x y : UInt32) : (x ||| y) &&& y = y := by
  rw [← UInt32.toBitVec_inj]
  ext i
  simp +contextual

theorem code_injective {b : BgpAttr} (h : a.code = b.code) : a = b := by
  revert h
  cases a <;> cases b <;> decide

theorem flagBit_and_of_ne {k : BgpAttr} (h : k ≠ a) : a.flagBit &&& k.flagBit = 0 := by
  revert h
  cases a <;> cases k <;> decide

theorem flagBit_ne_zero (a : BgpAttr) : a.flagBit ≠ 0 := by
  cases a <;> decide

/-- Each attribute has a bit of its own. -/
theorem has_setFlag (h : attr'.flag = attr.flag ||| a.flagBit) (k : BgpAttr) :
    attr'.has k = (attr.has k || decide (k = a)) := by
  unfold has
  rw [h]
  by_cases hk : k = a
  · subst hk
    simp [or_and_self, flagBit_ne_zero]
  · simp [or_and_distrib, flagBit_and_of_ne hk, hk]

end FlagBits

/-- An attribute is set, and the fields of the others stay. -/
theorem value_setFlag {content' : TarpanAttr → Option TarpanMsg}
    (hflag : attr'.flag = attr.flag ||| a.flagBit) (hfield : attr'.field content' a = some v)
    (hother : ∀ k, k ≠ a → attr'.field content' k = attr.field content k) :
    attr'.value content' = update (attr.value content) a (some v) := by
  funext k
  unfold value
  rw [has_setFlag hflag]
  by_cases hk : k = a
  · subst hk
    rw [update_self, hfield]
    simp
  · rw [update_of_ne hk, hother k hk]
    simp [hk]

/-! ## Values on the wire -/

def AttrValue.octets (codec : TarpanCodec) : AttrValue → List UInt8
  | .octet v => [v]
  | .path p => pathBytes true p
  | .number v => beBytes 4 v.toNat
  | .mark => []
  | .aggregator as addr => beBytes 4 as.toNat ++ beBytes 4 addr.toNat
  | .words l => wordOctets l
  | .ecommunity l => l.flatten
  | .message msg => codec.pack msg

/-- The flags with which an attribute of `length` octets is sent. -/
def sentFlags (a : BgpAttr) (length : Nat) : UInt8 :=
  match a with
  | .origin | .nextHop | .localPref | .atomicAggregate => bgpAttrFlagTrans
  | .asPath => bgpAttrFlagTrans ||| bgpAttrFlagExtlen
  | .multiExitDisc | .originatorId | .clusterList => bgpAttrFlagOptional
  | .communities | .extCommunities =>
    if length > 255 then bgpAttrFlagOptional ||| bgpAttrFlagTrans ||| bgpAttrFlagExtlen
    else bgpAttrFlagOptional ||| bgpAttrFlagTrans
  | .tarpan => bgpAttrFlagOptional ||| bgpAttrFlagTrans ||| bgpAttrFlagExtlen
  | .mpReachNlri | .mpUnreachNlri => bgpAttrFlagOptional ||| bgpAttrFlagExtlen
  | .aggregator | .as4Path | .as4Aggregator | .asPathlimit => bgpAttrFlagOptional ||| bgpAttrFlagTrans

def attrTlv (codec : TarpanCodec) (a : BgpAttr) (v : AttrValue) : Tlv where
  flags := sentFlags a (v.octets codec).length
  type := a.code
  value := v.octets codec

/-- Those of the attributes `l` that have a value to send. -/
def attrTlvs (codec : TarpanCodec) (sent : BgpAttr → Option AttrValue) (l : List BgpAttr) : List Tlv :=
  l.filterMap fun a => (sent a).map (attrTlv codec a)

/-! ## The check of the flags -/

/-- The check of `bgp_attr_flag_invalid` against the entry `value` of the table. -/
def flagsConflict (value flags : UInt8) : Bool :=
  let optional := checkFlag flags bgpAttrFlagOptional
  let trans := checkFlag flags bgpAttrFlagTrans
  let isPartial := checkFlag flags bgpAttrFlagPartial
  if value = 0 then false
  else if !optional && !trans then true
  else if isPartial && !optional then true
  else if isPartial && optional && !trans then true
  else
    let mask := if optional && trans then bgpAttrFlagExtlen ||| bgpAttrFlagPartial else bgpAttrFlagExtlen
    flags &&& ~~~ mask != value

/-- The octet that `attr_flags_values` gives for an attribute, or what lies behind the table. -/
def tableFlags {σ : Type} (env : ParserEnv σ) (a : BgpAttr) : UInt8 :=
  if a.code.toNat < attrFlagsValuesMax then attrFlagsValues a.code else env.behindFlagsValues

variable {σ : Type} (env : ParserEnv σ)

theorem bgpAttrFlagInvalid_eq (a : BgpAttr) (length : Nat) (flags : UInt8)
    (startp total : Nat) :
    bgpAttrFlagInvalid env ⟨length, a.code, flags, startp, total⟩ =
      if a.code.toNat > attrFlagsValuesMax then false else flagsConflict (tableFlags env a) flags := rfl

/-- The flags that are sent are those of the table. -/
theorem sentFlags_valid (ha : a.code.toNat < attrFlagsValuesMax)
    (v : AttrValue) (startp : Nat) : bgpAttrFlagInvalid env ((attrTlv env.codec a v).args startp) = false := by
  have htab : tableFlags env a = attrFlagsValues a.code := if_pos ha
  refine (bgpAttrFlagInvalid_eq env a _ (sentFlags a (v.octets env.codec).length) _ _).trans ?_
  rw [if_neg (by omega), htab]
  cases a <;> first | exact absurd ha (by decide) | (unfold sentFlags; dsimp only; first | decide | (split <;> decide))

/-- For a Tarpan attribute it depends on what lies behind the table. -/
theorem sentFlags_tarpan (v : AttrValue) (startp : Nat) :
    bgpAttrFlagInvalid env ((attrTlv env.codec .tarpan v).args startp) = false ↔
      env.behindFlagsValues = 0 ∨ env.behindFlagsValues = bgpAttrFlagOptional ||| bgpAttrFlagTrans := by
  have htab : tableFlags env .tarpan = env.behindFlagsValues := if_neg (by decide)
  have heq := bgpAttrFlagInvalid_eq env .tarpan (v.octets env.codec).length
    (sentFlags .tarpan 0) startp (attrTlv env.codec .tarpan v).wire.length
  rw [if_neg (by decide), htab] at heq
  refine (Eq.congr_left heq).trans ?_
  have hopt : checkFlag (sentFlags .tarpan 0) bgpAttrFlagOptional = true := by decide
  have htrans : checkFlag (sentFlags .tarpan 0) bgpAttrFlagTrans = true := by decide
  have hpartial : checkFlag (sentFlags .tarpan 0) bgpAttrFlagPartial = false := by decide
  have hmask : sentFlags .tarpan 0 &&& ~~~ (bgpAttrFlagExtlen ||| bgpAttrFlagPartial) =
      bgpAttrFlagOptional ||| bgpAttrFlagTrans := by decide
  unfold flagsConflict
  simp only [hopt, hpartial, Bool.not_true, Bool.false_and, Bool.false_eq_true, if_false]
  by_cases h : env.behindFlagsValues = 0
  · simp [h]
  · rw [if_neg h, bne_eq_false_iff_eq, eq_comm]
    exact (or_iff_right h).symm

/-! ## The handlers -/

namespace AttrParser

variable {σ : Type} {st : ParseState σ} {rest : List UInt8}

theorem read_run {α : Type} {f : Stream → Option (α × Stream)} {a : α} {ibuf : Stream}
    (h : f st.ibuf = some (a, ibuf)) :
    AttrParser.read f st = some (a, { st with ibuf }) := by
  rw [AttrParser.read, h]
  rfl

section
variable {l : UInt32} (h : st.ibuf.unread = beBytes 4 l.toNat ++ rest)
include h

theorem getl_run : getl st = some (l, { st with ibuf := st.ibuf.advance 4 }) := read_run (streamGetl_of_unread h)
theorem getIpv4_run : getIpv4 st = some (l, { st with ibuf := st.ibuf.advance 4 }) := getl_run h

end

@[simp] theorem modifyAttr_run (f : Attr → Attr) (st : ParseState σ) :
    modifyAttr f st = some ((), { st with attr := f st.attr }) := rfl

@[simp] theorem modifyExtra_run (f : AttrExtra → AttrExtra) (st : ParseState σ) :
    modifyExtra f st = some ((), { st with attr := { st.attr with extra := some (f (st.attr.extra.getD {})) } }) := rfl

theorem peek_whole {n : Nat} {value : List UInt8} (hn : n = value.length) (h : st.ibuf.unread = value ++ rest) :
    st.ibuf.unread.take n = value ∧ n ≤ st.ibuf.readable := by
  subst hn
  exact ⟨by rw [h, take_left], le_readable h⟩

theorem modifyExtra_id (h : st.attr.extra.isSome) : modifyExtra id st = some ((), st) := by
  obtain ⟨extra, he⟩ := isSome_iff_exists.1 h
  rw [modifyExtra_run, he, getD_some, id, ← he]

end AttrParser

section Handlers
variable {σ : Type}

def ParseState.value (st : ParseState σ) : BgpAttr → Option AttrValue := st.attr.value st.speaker.store.content

/-- The handler has read the value `v` of the attribute `a`. -/
structure Took (st : ParseState σ) (a : BgpAttr) (n : Nat) (v : AttrValue) (st' : ParseState σ) : Prop where
  ibuf : st'.ibuf = st.ibuf.advance n
  seen : st'.seen = st.seen
  extra : st'.attr.extra.isSome
  speaker : a ≠ .tarpan → st'.speaker = st.speaker
  value : st'.value = update st.value a (some v)

def Takes (handler : AttrParser σ AttrParseRet) (st : ParseState σ) (a : BgpAttr) (n : Nat) (v : AttrValue) : Prop :=
  ∃ st', handler st = some (.proceed, st') ∧ Took st a n v st'

variable {env : ParserEnv σ} {args : BgpAttrParserArgs} {st : ParseState σ} {rest : List UInt8}
  (hextra : st.attr.extra.isSome)
include hextra

theorem bgpAttrOrigin_took {c : UInt8} (hc : c = 0 ∨ c = 1 ∨ c = 2) (hlen : args.length = 1)
    (hunread : st.ibuf.unread = c :: rest) : Takes (bgpAttrOrigin env args) st .origin 1 (.octet c) := by
  have hvalid : ¬ (c ≠ 0 ∧ c ≠ 1 ∧ c ≠ 2) := by tauto
  unfold Takes bgpAttrOrigin
  rw [if_neg (not_not_intro hlen), bind_run, getc_run hunread]
  simp only [bind_some, if_neg hvalid]
  refine ⟨_, rfl, rfl, rfl, hextra, fun _ => rfl, value_setFlag rfl rfl fun k hk => ?_⟩
  cases k <;> first | rfl | exact absurd rfl hk

theorem bgpAttrAspath_took {p : Aspath} (hp : Normalised p) (hcap : env.peer.cap .as4Rcv = true)
    (hlen : args.length = (pathBytes true p).length) (hunread : st.ibuf.unread = pathBytes true p ++ rest) :
    Takes (bgpAttrAspath env args) st .asPath (pathBytes true p).length (.path (readPath p)) := by
  have heven : (pathBytes true p).length % 2 = 0 := pathBytes_length_even true (p.flatMap splitSegment)
  have hparse : aspathParse st.ibuf args.length (env.peer.cap .as4Rcv) =
      some (some (readPath p), st.ibuf.advance (pathBytes true p).length) := by
    rw [hlen, hcap, aspathParse, if_neg (not_not_intro heven)]
    exact assegmentsParse_pathBytes hp hunread
  unfold Takes bgpAttrAspath
  rw [bind_run, read_run hparse]
  refine ⟨_, rfl, rfl, rfl, hextra, fun _ => rfl, value_setFlag rfl rfl fun k hk => ?_⟩
  cases k <;> first | rfl | exact absurd rfl hk

variable {v : UInt32} {l : List UInt32}

section
variable (hlen : args.length = 4) (hunread : st.ibuf.unread = beBytes 4 v.toNat ++ rest)
include hlen hunread

theorem bgpAttrNexthop_took (hv : martianNexthop v = false) :
    Takes (bgpAttrNexthop env args) st .nextHop 4 (.number v) := by
  unfold Takes bgpAttrNexthop
  rw [if_neg (not_not_intro hlen), bind_run, getIpv4_run hunread]
  simp only [hv, bind_some]
  refine ⟨_, rfl, rfl, rfl, hextra, fun _ => rfl, value_setFlag rfl rfl fun k hk => ?_⟩
  cases k <;> first | rfl | exact absurd rfl hk

theorem bgpAttrMed_took : Takes (bgpAttrMed env args) st .multiExitDisc 4 (.number v) := by
  unfold Takes bgpAttrMed
  rw [if_neg (not_not_intro hlen), bind_run, getl_run hunread]
  refine ⟨_, rfl, rfl, rfl, hextra, fun _ => rfl, value_setFlag rfl rfl fun k hk => ?_⟩
  cases k <;> first | rfl | exact absurd rfl hk

theorem bgpAttrLocalPref_took (hsort : env.peer.sort ≠ .ebgp) :
    Takes (bgpAttrLocalPref env args) st .localPref 4 (.number v) := by
  unfold Takes bgpAttrLocalPref
  rw [if_neg (not_not_intro hlen), if_neg hsort, bind_run, getl_run hunread]
  refine ⟨_, rfl, rfl, rfl, hextra, fun _ => rfl, value_setFlag rfl rfl fun k hk => ?_⟩
  cases k <;> first | rfl | exact absurd rfl hk

end

theorem bgpAttrAtomic_took (hlen : args.length = 0) : Takes (bgpAttrAtomic env args) st .atomicAggregate 0 .mark := by
  unfold Takes bgpAttrAtomic
  rw [if_neg (not_not_intro hlen)]
  refine ⟨_, rfl, (advance_zero _).symm, rfl, hextra, fun _ => rfl, value_setFlag rfl rfl fun k _ => ?_⟩
  cases k <;> rfl

theorem bgpAttrAggregator_took {as addr : UInt32} (hcap : env.peer.cap .as4Rcv = true) (hlen : args.length = 8)
    (hunread : st.ibuf.unread = beBytes 4 as.toNat ++ (beBytes 4 addr.toNat ++ rest)) :
    Takes (bgpAttrAggregator env args) st .aggregator 8 (.aggregator as addr) := by
  obtain ⟨extra, he⟩ := isSome_iff_exists.1 hextra
  have hunr4 : (st.ibuf.advance 4).unread = beBytes 4 addr.toNat ++ rest := by
    rw [unread_advance, hunread]
    exact drop_left' (beBytes_length ..)
  have hasn : asnGet (env.peer.cap .as4Rcv) st.ibuf = some (as, st.ibuf.advance 4) := by
    rw [hcap]
    exact streamGetl_of_unread hunread
  unfold Takes bgpAttrAggregator
  rw [run_bind (modifyExtra_id hextra), if_neg (by rw [hcap]; exact not_not_intro hlen), run_bind (read_run hasn),
    run_bind (getIpv4_run hunr4), bind_run]
  simp only [advance_advance]
  refine ⟨_, rfl, rfl, rfl, rfl, fun _ => rfl, value_setFlag rfl rfl fun k hk => ?_⟩
  cases k <;> first | exact absurd rfl hk | simp [field, he]

theorem bgpAttrCommunity_took (hl : communityUniqSort l = l) (hne : l ≠ [])
    (hlen : args.length = l.length * 4) (hunread : st.ibuf.unread = wordOctets l ++ rest) :
    Takes (bgpAttrCommunity env args) st .communities (l.length * 4) (.words l) := by
  have hpos : args.length ≠ 0 := by
    have := length_pos_iff.2 hne
    omega
  obtain ⟨hpeek, hread⟩ := peek_whole (hlen.trans (wordOctets_length l).symm) hunread
  unfold Takes bgpAttrCommunity
  rw [if_neg hpos]
  simp only [bind_run, peek_run, bind_some, hpeek, communityParse_wordOctets hl, modifyAttr_run]
  rw [forwardGetp_run (by exact hread), hlen]
  refine ⟨_, rfl, rfl, rfl, hextra, fun _ => rfl, value_setFlag rfl rfl fun k hk => ?_⟩
  cases k <;> first | rfl | exact absurd rfl hk

theorem bgpAttrOriginatorId_took (hlen : args.length = 4) (hunread : st.ibuf.unread = beBytes 4 v.toNat ++ rest) :
    Takes (bgpAttrOriginatorId env args) st .originatorId 4 (.number v) := by
  obtain ⟨extra, he⟩ := isSome_iff_exists.1 hextra
  unfold Takes bgpAttrOriginatorId
  rw [if_neg (not_not_intro hlen), bind_run, getIpv4_run hunread]
  refine ⟨_, rfl, rfl, rfl, rfl, fun _ => rfl, value_setFlag rfl rfl fun k hk => ?_⟩
  cases k <;> first | exact absurd rfl hk | simp [field, he]

theorem bgpAttrClusterList_took (hlen : args.length = l.length * 4) (hunread : st.ibuf.unread = wordOctets l ++ rest) :
    Takes (bgpAttrClusterList env args) st .clusterList (l.length * 4) (.words l) := by
  obtain ⟨extra, he⟩ := isSome_iff_exists.1 hextra
  obtain ⟨hpeek, hread⟩ := peek_whole (hlen.trans (wordOctets_length l).symm) hunread
  unfold Takes bgpAttrClusterList
  rw [if_neg (by rw [hlen]; simp)]
  simp only [bind_run, peek_run, bind_some, hpeek, clusterParse, wordsOf_wordOctets, modifyExtra_run]
  rw [forwardGetp_run (by exact hread), hlen]
  refine ⟨_, rfl, rfl, rfl, rfl, fun _ => rfl, value_setFlag rfl rfl fun k hk => ?_⟩
  cases k <;> first | exact absurd rfl hk | simp [field, he]

theorem bgpAttrExtCommunities_took {l : List (List UInt8)} (hl : ∀ val ∈ l, val.length = ecommunitySize)
    (hsort : ecommunityUniqSort l = l) (hne : l ≠ []) (hlen : args.length = l.flatten.length)
    (hunread : st.ibuf.unread = l.flatten ++ rest) :
    Takes (bgpAttrExtCommunities env args) st .extCommunities l.flatten.length (.ecommunity l) := by
  obtain ⟨extra, he⟩ := isSome_iff_exists.1 hextra
  have hpos : args.length ≠ 0 := by
    obtain ⟨val, l, rfl⟩ := exists_cons_of_ne_nil hne
    have := hl val mem_cons_self
    rw [hlen, flatten_cons, length_append, this, ecommunitySize]
    omega
  obtain ⟨hpeek, hread⟩ := peek_whole hlen hunread
  unfold Takes bgpAttrExtCommunities
  rw [if_neg hpos]
  simp only [bind_run, peek_run, bind_some, hpeek, ecommunityParse_flatten hl hsort, modifyExtra_run]
  rw [forwardGetp_run (by exact hread), hlen]
  refine ⟨_, rfl, rfl, rfl, rfl, fun _ => rfl, value_setFlag rfl rfl fun k hk => ?_⟩
  cases k <;> first | exact absurd rfl hk | simp [field, he]

theorem bgpAttrTarpan_took {msg w : TarpanMsg} {tarpan : TarpanAttr} {sp : Speaker σ}
    (hreceived : tarpanReceived env.tarpanActiveHandler env.peer.as st.speaker msg env.newTarpan = some (tarpan, sp))
    (hcontent : sp.store.content tarpan = some w) (hlen : args.length = (env.codec.pack msg).length)
    (hunread : st.ibuf.unread = env.codec.pack msg ++ rest) :
    Takes (bgpAttrTarpan env args) st .tarpan (env.codec.pack msg).length (.message w) := by
  have hparse : bgpTarpanParse env.codec env.tarpanActiveHandler env.peer.as st.speaker
    (env.codec.pack msg) env.newTarpan =
      some (some tarpan, sp) := by
    unfold bgpTarpanParse
    rw [if_neg (env.codec.pack_ne_nil msg), env.codec.unpack_pack, bind_eq_bind, bind_some, hreceived]
    rfl
  obtain ⟨hpeek, hread⟩ := peek_whole hlen hunread
  unfold Takes bgpAttrTarpan
  simp only [bind_run, peek_run, bind_some, hpeek, onSpeaker, hparse, map_some, modifyAttr_run]
  rw [forwardGetp_run (by exact hread), hlen]
  refine ⟨_, rfl, rfl, rfl, hextra, fun hne => absurd rfl hne, value_setFlag rfl ?_ ?_⟩
  · simp [field, hcontent]
  · intro k hk
    cases k <;> first | rfl | exact absurd rfl hk

end Handlers

/-! ## What is read -/

section Reads
variable {σ : Type} (env : ParserEnv σ) (sp : Speaker σ)

/-- The value `v` of an attribute is accepted from an internal peer, and read as the last argument. An AS path may
come back in other segments, and the receiver's Tarpan protocol may change a message. -/
inductive Reads : BgpAttr → AttrValue → AttrValue → Prop
  | origin {c : UInt8} (hc : c = 0 ∨ c = 1 ∨ c = 2) : Reads .origin (.octet c) (.octet c)
  | asPath {p : Aspath} (hp : Normalised p) : Reads .asPath (.path p) (.path (readPath p))
  | nextHop {v : UInt32} (hv : martianNexthop v = false) : Reads .nextHop (.number v) (.number v)
  | multiExitDisc (v : UInt32) : Reads .multiExitDisc (.number v) (.number v)
  | localPref (v : UInt32) : Reads .localPref (.number v) (.number v)
  | atomicAggregate : Reads .atomicAggregate .mark .mark
  | aggregator (as addr : UInt32) : Reads .aggregator (.aggregator as addr) (.aggregator as addr)
  | communities {l : List UInt32} (hl : communityUniqSort l = l) (hne : l ≠ []) :
      Reads .communities (.words l) (.words l)
  | tarpan {msg w : TarpanMsg} {tarpan : TarpanAttr} {sp' : Speaker σ}
      (hbehind : env.behindFlagsValues = 0 ∨ env.behindFlagsValues = bgpAttrFlagOptional ||| bgpAttrFlagTrans)
      (hreceived : tarpanReceived env.tarpanActiveHandler env.peer.as sp msg env.newTarpan = some (tarpan, sp'))
      (hcontent : sp'.store.content tarpan = some w) : Reads .tarpan (.message msg) (.message w)
  | originatorId (v : UInt32) : Reads .originatorId (.number v) (.number v)
  | clusterList (l : List UInt32) : Reads .clusterList (.words l) (.words l)
  | extCommunities {l : List (List UInt8)} (hl : ∀ val ∈ l, val.length = ecommunitySize)
      (hsort : ecommunityUniqSort l = l) (hne : l ≠ []) : Reads .extCommunities (.ecommunity l) (.ecommunity l)

variable {env sp} {a : BgpAttr} {v w : AttrValue}

theorem Reads.took (h : Reads env sp a v w) (hsort : env.peer.sort = .ibgp) (hcap : env.peer.cap .as4Rcv = true)
    {st : ParseState σ} (hextra : st.attr.extra.isSome) (hsp : a = .tarpan → st.speaker = sp) {rest : List UInt8}
    (hunread : st.ibuf.unread = v.octets env.codec ++ rest) (startp : Nat) :
    Takes (bgpAttrHandle env ((attrTlv env.codec a v).args startp)) st a (v.octets env.codec).length w := by
  cases h with
  | origin hc => exact bgpAttrOrigin_took hextra hc rfl hunread
  | asPath hp => exact bgpAttrAspath_took hextra hp hcap rfl hunread
  | nextHop hv => exact bgpAttrNexthop_took hextra rfl hunread hv
  | multiExitDisc v => exact bgpAttrMed_took hextra rfl hunread
  | localPref v => exact bgpAttrLocalPref_took hextra rfl hunread (by rw [hsort]; decide)
  | atomicAggregate => exact bgpAttrAtomic_took hextra rfl
  | aggregator as addr => exact bgpAttrAggregator_took hextra hcap rfl (by rw [hunread]; exact append_assoc ..)
  | communities hl hne =>
    have hlen := wordOctets_length
    rw [AttrValue.octets, hlen]
    exact bgpAttrCommunity_took hextra hl hne (hlen _) hunread
  | tarpan _ hreceived hcontent => exact bgpAttrTarpan_took hextra (hsp rfl ▸ hreceived) hcontent rfl hunread
  | originatorId v => exact bgpAttrOriginatorId_took hextra rfl hunread
  | clusterList l =>
    have hlen := wordOctets_length l
    rw [AttrValue.octets, hlen]
    exact bgpAttrClusterList_took hextra hlen hunread
  | extCommunities hl hsort hne => exact bgpAttrExtCommunities_took hextra hl hsort hne rfl hunread

theorem Reads.flags (h : Reads env sp a v w) (startp : Nat) :
    bgpAttrFlagInvalid env ((attrTlv env.codec a v).args startp) = false := by
  cases h with
  | origin | asPath | nextHop | multiExitDisc | localPref | atomicAggregate | aggregator | originatorId | clusterList
  | communities | extCommunities => exact sentFlags_valid env (by decide) _ startp
  | tarpan hbehind => exact (sentFlags_tarpan env _ startp).2 hbehind

end Reads

end Tarpan.Bgpd
