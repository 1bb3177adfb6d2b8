/-
What `bgp_packet_attribute` writes for an internal peer with four-octet AS numbers: the attributes of the set one
after the other, each with its header. An AS path alone may go out with another length than it has.
-/
import Tarpan.Bgpd.Attr.Value

namespace Tarpan.Bgpd

open Base Lib Option Attr AttrValue

/-! ## What goes out -/

/-- The order in which attributes go out. -/
def sentOrder : List BgpAttr :=
  [.origin, .asPath, .nextHop, .multiExitDisc, .localPref, .atomicAggregate, .aggregator, .communities, .tarpan,
    .originatorId, .clusterList, .extCommunities]

section Sent
variable {σ : Type} (env : PacketEnv σ) (sp : Speaker σ) (attr : Attr)

/-- The message that goes out: that of the attributes, or a new one. -/
def sentMessage : TarpanMsg :=
  match attr.value sp.store.content .tarpan with
  | some (.message msg) => handled env.tarpanActiveHandler (·.updatePacket) env.peer.as sp msg
  | _ => handled env.tarpanActiveHandler (·.initializePacket) env.peer.as sp tarpanMessageNew

/-- The CLUSTER_LIST with which a route is reflected. -/
def reflectedCluster : List UInt32 := env.ownCluster sp.bgp :: (attr.extra.bind (·.cluster)).getD []

/-- The value with which an attribute goes out to an internal peer. -/
def sentValue : BgpAttr → Option AttrValue
  | .localPref => some (.number attr.localPref)
  | .communities => if env.afFlag .sendCommunity then attr.value sp.store.content .communities else none
  | .tarpan => some (.message (sentMessage env sp attr))
  | .originatorId => if env.reflects then (reflectedOriginator env attr).map .number else none
  | .clusterList => if env.reflects then some (.words (reflectedCluster env sp attr)) else none
  | .extCommunities => if env.afFlag .sendExtCommunity then attr.value sp.store.content .extCommunities else none
  | a => attr.value sp.store.content a

/-- The attributes on the wire. -/
def sentTlvs : List Tlv := attrTlvs env.codec (sentValue env sp attr) sentOrder

/-- The value that the receiver is to have. -/
def dueValue : BgpAttr → Option AttrValue
  | .originatorId =>
    if env.reflects then (reflectedOriginator env attr).map .number else attr.value sp.store.content .originatorId
  | .clusterList =>
    if env.reflects then some (.words (reflectedCluster env sp attr)) else attr.value sp.store.content .clusterList
  | a => attr.value sp.store.content a

/-- An attribute set as the table holds it: ORIGIN, AS_PATH and NEXT_HOP are there, and the others are among those
that go out; communities are in order, and a message is there with its attribute. -/
structure Sendable (content : TarpanAttr → Option TarpanMsg) (attr : Attr) : Prop where
  origin : attr.has .origin = true
  origin_le : attr.origin = 0 ∨ attr.origin = 1 ∨ attr.origin = 2
  asPath : attr.has .asPath = true
  aspath : ∃ p, attr.aspath = some p ∧ Normalised p
  nextHop : attr.has .nextHop = true
  only : ∀ a, attr.has a = true → a ∈ sentOrder
  aggregator : attr.has .aggregator = true → attr.extra.isSome
  originatorId : attr.has .originatorId = true → attr.extra.isSome
  communities : attr.has .communities = true → ∃ l, attr.community = some l ∧ communityUniqSort l = l ∧ l ≠ []
  clusterList : attr.has .clusterList = true ↔ (attr.extra.bind (·.cluster)).isSome
  extCommunities : attr.has .extCommunities = true → ∃ l, attr.extra.bind (·.ecommunity) = some l ∧
    (∀ val ∈ l, val.length = ecommunitySize) ∧ ecommunityUniqSort l = l ∧ l ≠ []
  tarpan : attr.has .tarpan = true → ∃ t msg, attr.tarpan = some t ∧ content t = some msg
  transit : attr.extra.bind (·.transit) = none

end Sent

/-! ## The writer -/

/-- What is written for an attribute: the length of an AS path is what `aspath_put` returns. -/
def writtenAttr (codec : TarpanCodec) (a : BgpAttr) (v : AttrValue) : List UInt8 :=
  match v with
  | .path p => (attrTlv codec a v).flags :: a.code :: (beBytes 2 (putCount true p) ++ v.octets codec)
  | _ => (attrTlv codec a v).wire

def writtenOption (codec : TarpanCodec) (a : BgpAttr) (v : Option AttrValue) : List UInt8 :=
  (v.map (writtenAttr codec a)).getD []

section Writer

theorem writes_attrPutc (flags : UInt8) (type : BgpAttr) (length : Nat) :
    Writes (attrPutc · flags type length) [flags, type.code, UInt8.ofNat length] :=
  (writes_putc flags).bind ((writes_putc type.code).bind (writes_putc (UInt8.ofNat length)))

theorem writes_attrPutw (flags : UInt8) (type : BgpAttr) (length : Nat) : Writes (attrPutw · flags type length)
      ((flags ||| bgpAttrFlagExtlen) :: type.code :: beBytes 2 (UInt16.ofNat length).toNat) :=
  (writes_putc (flags ||| bgpAttrFlagExtlen)).bind ((writes_putc type.code).bind (writes_putw (UInt16.ofNat length)))

section
variable (codec : TarpanCodec) (a : BgpAttr) {v : AttrValue} {flags : UInt8} {f : Stream → Option Stream}
  (hwire : writtenAttr codec a v = (attrTlv codec a v).wire) (hf : Writes f (v.octets codec))
include hwire hf

theorem writes_short (hfl : sentFlags a (v.octets codec).length = flags)
    (hext : checkFlag flags bgpAttrFlagExtlen = false) :
    Writes (fun s => attrPutc s flags a (v.octets codec).length >>= f) (writtenAttr codec a v) := by
  rw [hwire, Tlv.wire_short (by rw [Tlv.extlen, attrTlv, hfl, hext])]
  have hhead : [(attrTlv codec a v).flags, (attrTlv codec a v).type, UInt8.ofNat (attrTlv codec a v).value.length] =
      [flags, a.code, UInt8.ofNat (v.octets codec).length] := by rw [← hfl]; rfl
  rw [hhead]
  exact (writes_attrPutc flags a (v.octets codec).length).bind hf

theorem writes_long (hfl : sentFlags a (v.octets codec).length = flags ||| bgpAttrFlagExtlen)
    (hext : checkFlag (flags ||| bgpAttrFlagExtlen) bgpAttrFlagExtlen = true) :
    Writes (fun s => attrPutw s flags a (v.octets codec).length >>= f) (writtenAttr codec a v) := by
  rw [hwire, Tlv.wire_long (by rw [Tlv.extlen, attrTlv, hfl, hext])]
  have hhead : (attrTlv codec a v).flags :: (attrTlv codec a v).type :: beBytes 2 (attrTlv codec a v).value.length =
      (flags ||| bgpAttrFlagExtlen) :: a.code :: beBytes 2 (UInt16.ofNat (v.octets codec).length).toNat := by
    rw [beBytes_ofNat, ← hfl]
    rfl
  rw [hhead]
  exact (writes_attrPutw flags a (v.octets codec).length).bind hf

theorem writes_sized (ha : a = .communities ∨ a = .extCommunities) :
    Writes (fun s => attrPutSized s (bgpAttrFlagOptional ||| bgpAttrFlagTrans) a (v.octets codec).length >>= f)
      (writtenAttr codec a v) := by
  unfold attrPutSized
  by_cases hlong : (v.octets codec).length > 255
  · simp only [if_pos hlong]
    refine writes_long codec a hwire hf ?_ (by decide)
    rcases ha with rfl | rfl <;> exact if_pos hlong
  · simp only [if_neg hlong]
    refine writes_short codec a hwire hf ?_ (by decide)
    rcases ha with rfl | rfl <;> exact if_neg hlong

end

theorem writes_option {codec : TarpanCodec} {a : BgpAttr} {c : Prop} [Decidable c] {v : AttrValue}
    {f : Stream → Option Stream} (hf : c → Writes f (writtenAttr codec a v)) :
    Writes (fun s => if c then f s else some s) (writtenOption codec a (if c then some v else none)) := by
  by_cases h : c
  · simp only [if_pos h]
    exact hf h
  · simp only [if_neg h]
    exact writes_nil

section Parts
variable {σ : Type} (env : PacketEnv σ) (sp : Speaker σ) (attr : Attr)

/-- What is written for an attribute of the set. -/
abbrev sentOctets (a : BgpAttr) : List UInt8 := writtenOption env.codec a (sentValue env sp attr a)

theorem writes_originPut (h : attr.has .origin = true) : Writes (originPut attr) (sentOctets env sp attr .origin) := by
  rw [sentOctets, show sentValue env sp attr .origin = some (.octet attr.origin) from if_pos h]
  exact @writes_short env.codec .origin (.octet attr.origin) _ _ rfl (writes_putc attr.origin) rfl (by decide)

theorem writes_medPut : Writes (medPut attr) (sentOctets env sp attr .multiExitDisc) :=
  writes_option fun _ =>
    @writes_short env.codec .multiExitDisc (.number attr.med) _ _ rfl (writes_putl attr.med) rfl (by decide)

theorem writes_atomicPut : Writes (atomicPut attr) (sentOctets env sp attr .atomicAggregate) := by
  refine writes_option fun _ => ?_
  have h := @writes_short env.codec .atomicAggregate .mark bgpAttrFlagTrans some rfl writes_nil rfl (by decide)
  simp at h
  exact h

theorem writes_nexthopPut : Writes (nexthopPut env .unicast attr .ip) (sentOctets env sp attr .nextHop) := by
  have h := @writes_option env.codec .nextHop (attr.has .nextHop = true) _ (.number attr.nexthop) _ fun _ =>
    @writes_short env.codec .nextHop (.number attr.nexthop) bgpAttrFlagTrans _ rfl (writes_putl attr.nexthop)
      rfl (by decide)
  refine h.congr fun s => ?_
  simp only [nexthopPut, and_true]
  rfl

variable {env attr}

theorem writes_localPrefPut (hsort : env.peer.sort = .ibgp) :
    Writes (localPrefPut env attr) (sentOctets env sp attr .localPref) := by
  have h := @writes_short env.codec .localPref (.number attr.localPref) bgpAttrFlagTrans _ rfl
    (writes_putl attr.localPref) rfl (by decide)
  exact h.congr fun s => if_pos (.inl hsort)

theorem writes_aggregatorPut (hcap : env.use32bit = true) (hex : attr.has .aggregator = true → attr.extra.isSome) :
    Writes (aggregatorPut env attr) (sentOctets env sp attr .aggregator) := by
  by_cases hhas : attr.has .aggregator = true
  · obtain ⟨extra, he⟩ := isSome_iff_exists.1 (hex hhas)
    have hval : sentValue env sp attr .aggregator = some (.aggregator extra.aggregatorAs extra.aggregatorAddr) := by
      simp [sentValue, value, hhas, field, he]
    have h := @writes_short env.codec .aggregator (.aggregator extra.aggregatorAs extra.aggregatorAddr)
      (bgpAttrFlagOptional ||| bgpAttrFlagTrans) _ rfl
      ((writes_putl extra.aggregatorAs).bind (writes_putl extra.aggregatorAddr)) rfl (by decide)
    rw [sentOctets, hval]
    refine h.congr fun s => ?_
    simp only [aggregatorPut, hhas, he, hcap, bind_eq_bind]
    rfl
  · have hval : sentValue env sp attr .aggregator = none := if_neg hhas
    rw [sentOctets, hval]
    exact writes_nil.congr fun s => if_neg hhas

theorem writes_communityPut (hl : attr.has .communities = true → ∃ l, attr.community = some l) :
    Writes (communityPut env attr) (sentOctets env sp attr .communities) := by
  by_cases h : env.afFlag .sendCommunity = true ∧ attr.has .communities = true
  · obtain ⟨l, hl⟩ := hl h.2
    have hval : sentValue env sp attr .communities = some (.words l) := by
      simp [sentValue, value, h.1, h.2, field, hl]
    have hw := @writes_sized env.codec .communities (.words l) _ rfl (writes_put (wordOctets l)) (.inl rfl)
    rw [octets, wordOctets_length] at hw
    rw [sentOctets, hval]
    refine hw.congr fun s => ?_
    simp [communityPut, h, hl]
  · have hval : sentValue env sp attr .communities = none := by
      simp only [sentValue, value, ← ite_and]
      exact if_neg h
    rw [sentOctets, hval]
    exact writes_nil.congr fun s => if_neg h

theorem writes_ecommunityPut (hsort : env.peer.sort = .ibgp)
    (hl : attr.has .extCommunities = true → ∃ l, attr.extra.bind (·.ecommunity) = some l ∧
      ∀ val ∈ l, val.length = ecommunitySize) :
    Writes (ecommunityPut env attr) (sentOctets env sp attr .extCommunities) := by
  by_cases h : env.afFlag .sendExtCommunity = true ∧ attr.has .extCommunities = true
  · obtain ⟨l, hl, hsize⟩ := hl h.2
    obtain ⟨extra, he, hecom⟩ := bind_eq_some_iff.1 hl
    have hval : sentValue env sp attr .extCommunities = some (.ecommunity l) := by
      simp [sentValue, value, h.1, h.2, field, he, hecom]
    have hlen : l.flatten.length = l.length * 8 := by
      rw [List.length_flatten, List.map_congr_left hsize]
      simp [ecommunitySize]
    have hw := @writes_sized env.codec .extCommunities (.ecommunity l) _ rfl (writes_put l.flatten) (.inr rfl)
    rw [octets, hlen] at hw
    rw [sentOctets, hval]
    refine hw.congr fun s => ?_
    simp [ecommunityPut, h, he, hecom, bind_some, hsort]
  · have hval : sentValue env sp attr .extCommunities = none := by
      simp only [sentValue, value, ← ite_and]
      exact if_neg h
    rw [sentOctets, hval]
    exact writes_nil.congr fun s => if_neg h

theorem exists_reflectedOriginator (h : env.reflects = true) (hex : attr.has .originatorId = true → attr.extra.isSome) :
    ∃ id, reflectedOriginator env attr = some id := by
  unfold reflectedOriginator
  split_ifs with hhas
  · obtain ⟨extra, he⟩ := isSome_iff_exists.1 (hex hhas)
    exact ⟨_, by rw [he]; rfl⟩
  unfold PacketEnv.reflects at h
  cases hpeer : env.fromPeer with
  | none => simp [hpeer] at h
  | some peer => exact ⟨_, rfl⟩

theorem writes_reflectPut (hex : attr.has .originatorId = true → attr.extra.isSome) :
    Writes (reflectPut env attr sp.bgp) (sentOctets env sp attr .originatorId ++
      sentOctets env sp attr .clusterList) := by
  by_cases h : env.reflects = true
  · obtain ⟨originator, horg⟩ := exists_reflectedOriginator h hex
    have hw1 := @writes_short env.codec .originatorId (.number originator) bgpAttrFlagOptional _ rfl
      (writes_putl originator) rfl (by decide)
    have hw2 := @writes_short env.codec .clusterList (.words (reflectedCluster env sp attr)) bgpAttrFlagOptional _ rfl
      ((writes_putl (env.ownCluster sp.bgp)).bind
        (writes_put (wordOctets ((attr.extra.bind (·.cluster)).getD [])))) rfl (by decide)
    simp only [sentOctets, sentValue, h, horg]
    refine (hw1.bind hw2).congr fun s => ?_
    have hlen : (octets env.codec (.words (reflectedCluster env sp attr))).length =
        ((attr.extra.bind (·.cluster)).getD []).length * 4 + 4 := by
      rw [octets, wordOctets_length, reflectedCluster, List.length_cons]
      omega
    simp only [reflectPut, h, horg, hlen, bind_eq_bind, bind_assoc]
    rfl
  · simp only [sentOctets, sentValue, h]
    exact writes_nil.congr fun s => if_neg h

theorem writes_aspathAttrPut (codec : TarpanCodec) {p : Aspath} (hp : Normalised p) :
    Writes (aspathAttrPut · bgpAttrFlagTrans .asPath p true) (writtenAttr codec .asPath (.path p)) := by
  have hput : WritesTo (aspathPut · p true) (pathBytes true p) (·, putCount true p) := by
    intro s hroom
    rw [pathBytes_length true fun x hx => (hp.segs x hx).nonempty] at hroom
    obtain ⟨s', hs', happ⟩ := streamAppend_spec
      ((pathBytes_length true fun x hx => (hp.segs x hx).nonempty).trans_le hroom)
    refine ⟨s', ?_, happ⟩
    dsimp only
    rw [aspathPut_eq hp hroom, hs', map_some]
  refine (writes_lengthAfter ((writes_putc (bgpAttrFlagTrans ||| bgpAttrFlagExtlen)).bind
    (writes_putc BgpAttr.asPath.code)) hput).congr fun s => ?_
  simp [aspathAttrPut, bind_assoc]

end Parts

/-! ### Tarpan -/

section Tarpan
variable {σ : Type} {handler : Option (TarpanProtocolHandler σ)} {peerAs : UInt32} {sp : Speaker σ} {t : TarpanAttr}

theorem packetTarpan_new (codec : TarpanCodec) (ht : t.message.isSome) :
    ∃ sp', packetTarpan codec handler peerAs sp none t =
      some (codec.pack (handled handler (·.initializePacket) peerAs sp tarpanMessageNew), sp') := by
  have hpl : ({ sp with store := sp.store.place t tarpanMessageNew } : Speaker σ).store.content t =
    some tarpanMessageNew :=
    TarpanStore.place_content_self ht
  obtain ⟨sp', hcall, hcontent⟩ := @callHandler_content σ handler peerAs _ t (·.initializePacket) _ hpl
  refine ⟨sp', ?_⟩
  unfold packetTarpan tarpanInitializePacket
  simp only [hcall, hcontent, bind_eq_bind, bind_some]
  rfl

theorem packetTarpan_update (codec : TarpanCodec) (ht : t.message.isSome) {tarp : TarpanAttr} {msg : TarpanMsg}
    (hmsg : sp.store.content tarp = some msg) : ∃ sp', packetTarpan codec handler peerAs sp (some tarp) t =
      some (codec.pack (handled handler (·.updatePacket) peerAs sp msg), sp') := by
  have hpl : ({ sp with store := sp.store.place t msg } : Speaker σ).store.content t = some msg :=
    TarpanStore.place_content_self ht
  obtain ⟨sp', hcall, hcontent⟩ := @callHandler_content σ handler peerAs _ t (·.updatePacket) _ hpl
  refine ⟨sp', ?_⟩
  unfold packetTarpan tarpanUpdatePacket tarpanCopy
  simp only [hmsg, codec.unpack_pack, map_some, bind_some, hcall, hcontent, bind_eq_bind]
  rfl

/-- Whatever the attributes have, a Tarpan attribute goes out. -/
theorem exists_writesTo_tarpanPut {env : PacketEnv σ} {attr : Attr} (ht : env.newTarpan.message.isSome)
    (htar : attr.has .tarpan = true → ∃ t msg, attr.tarpan = some t ∧ sp.store.content t = some msg) :
    ∃ sp', WritesTo (tarpanPut env attr sp) (sentOctets env sp attr .tarpan) (·, sp') := by
  obtain ⟨tarp, sp', htarp, hpkt⟩ : ∃ tarp sp', attrTarpan attr = some tarp ∧
      packetTarpan env.codec env.tarpanActiveHandler env.peer.as sp tarp env.newTarpan =
        some (env.codec.pack (sentMessage env sp attr), sp') := by
    by_cases hhas : attr.has .tarpan = true
    · obtain ⟨t, msg, ht', hmsg⟩ := htar hhas
      have hval : attr.value sp.store.content .tarpan = some (.message msg) := by
        simp [value, hhas, field, ht', hmsg]
      obtain ⟨sp', hpkt⟩ :=
        @packetTarpan_update σ env.tarpanActiveHandler env.peer.as sp env.newTarpan env.codec ht t msg hmsg
      exact ⟨some t, sp', by simp [attrTarpan, hhas, ht'], by rw [hpkt, sentMessage, hval]⟩
    · have hval : attr.value sp.store.content .tarpan = none := if_neg hhas
      obtain ⟨sp', hpkt⟩ := @packetTarpan_new σ env.tarpanActiveHandler env.peer.as sp env.newTarpan env.codec ht
      exact ⟨none, sp', if_neg hhas, by rw [hpkt, sentMessage, hval]⟩
  refine ⟨sp', fun s hroom => ?_⟩
  obtain ⟨s', hs', happ⟩ := @writes_long env.codec .tarpan (.message (sentMessage env sp attr))
    (bgpAttrFlagOptional ||| bgpAttrFlagTrans) _ rfl
    (writes_put (env.codec.pack (sentMessage env sp attr))) rfl (by decide) s hroom
  refine ⟨s', ?_, happ⟩
  obtain ⟨s1, h1, h2⟩ := bind_eq_some_iff.1 hs'
  rw [octets] at h1
  unfold tarpanPut
  simp only [htarp, hpkt, bind_eq_bind, bind_some, h1, h2, pure_def]

end Tarpan

/-! ### The whole writer -/

section Whole
variable {σ : Type} {env : PacketEnv σ} {sp : Speaker σ} {attr : Attr}

def writtenOctets (env : PacketEnv σ) (sp : Speaker σ) (attr : Attr) : List UInt8 :=
  sentOrder.flatMap fun a => writtenOption env.codec a (sentValue env sp attr a)

/-- What is promised of a session with an internal peer that takes four-octet AS numbers. -/
structure PacketEnv.Internal (env : PacketEnv σ) : Prop where
  sort : env.peer.sort = .ibgp
  as4 : env.peer.cap .as4Rcv = true
  newTarpan : env.newTarpan.message.isSome

theorem packetAspath_internal (henv : env.Internal) (p : Aspath) : packetAspath env p = some p := by
  simp [packetAspath, henv.sort]

/-- `bgp_packet_attribute` writes the attributes in their order and returns their size. -/
theorem bgpPacketAttribute_written (henv : env.Internal) (hattr : Sendable sp.store.content attr)
    (p : Option (Prefix .ip)) (prd : Option PrefixRd) (tag : Option (List UInt8)) {s : Stream}
    (hroom : (writtenOctets env sp attr).length ≤ s.writeable) :
    ∃ s' sp', bgpPacketAttribute env .unicast attr sp s p prd tag =
        some (s', (writtenOctets env sp attr).length, sp') ∧ s.Appended (writtenOctets env sp attr) s' := by
  obtain ⟨aspath, hasp, hnorm⟩ := hattr.aspath
  obtain ⟨sp', htar⟩ := exists_writesTo_tarpanPut henv.newTarpan hattr.tarpan
  have hpath : sentValue env sp attr .asPath = some (.path aspath) := by
    simp [sentValue, value, hattr.asPath, field, hasp]
  have hwrites : WritesTo (fun t => (do
      let t ← originPut attr t
      let t ← aspathAttrPut t bgpAttrFlagTrans .asPath aspath env.use32bit
      let t ← nexthopPut env .unicast attr .ip t
      let t ← medPut attr t
      let t ← localPrefPut env attr t
      let t ← atomicPut attr t
      let t ← aggregatorPut env attr t
      let t ← communityPut env attr t
      let r ← tarpanPut env attr sp t
      let t ← reflectPut env attr sp.bgp r.1
      let t ← ecommunityPut env attr t
      some (t, t.endp - s.endp, r.2))) (writtenOctets env sp attr) fun t => (t, t.endp - s.endp, sp') := by
    simp only [writtenOctets, sentOrder, List.flatMap_cons, hpath, show env.use32bit = true from henv.as4]
    refine (writes_originPut env sp attr hattr.origin).bindTo ((writes_aspathAttrPut env.codec hnorm).bindTo ?_)
    refine (writes_nexthopPut env sp attr).bindTo ((writes_medPut env sp attr).bindTo ?_)
    refine (writes_localPrefPut sp henv.sort).bindTo ((writes_atomicPut env sp attr).bindTo ?_)
    refine (writes_aggregatorPut sp henv.as4 hattr.aggregator).bindTo ?_
    refine (writes_communityPut sp fun h => (hattr.communities h).imp fun _ h => h.1).bindTo ?_
    refine htar.bind ?_
    dsimp only
    rw [← List.append_assoc]
    refine (writes_reflectPut sp hattr.originatorId).bindTo ?_
    exact (writes_ecommunityPut sp henv.sort fun h => (hattr.extCommunities h).imp fun _ h => ⟨h.1, h.2.1⟩).bindTo
      (writesTo_some _)
  obtain ⟨s', hs', happ⟩ := hwrites s hroom
  have hendp : s'.endp - s.endp = (writtenOctets env sp attr).length := by
    rw [Stream.endp, happ.data, List.length_append, Stream.endp, Nat.add_sub_cancel_left]
  refine ⟨s', sp', ?_, happ⟩
  rw [← hendp, ← hs']
  have hmpattr : mpattrPut .unicast attr p prd tag s = some s := by cases p <;> rfl
  -- what is left over is not for a peer with four-octet AS numbers, and there are no unknown attributes
  simp [bgpPacketAttribute, hmpattr, hasp, packetAspath_internal henv, as4PathPut, as4AggregatorPut, transitPut,
    PacketEnv.use32bit, henv.as4, hattr.transit]

end Whole

end Writer

end Tarpan.Bgpd
