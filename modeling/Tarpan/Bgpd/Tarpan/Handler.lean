/-
The protocol handlers of Tarpan and where they are called (bgp_tarpan.c, and the Tarpan parts of
bgp_packet_attribute and bgp_attr_parse in bgp_attr.c): a new message is initialized, a message that
is sent on is copied and the copy updated, a message that is received is interned and then changed
in place. The functions that pack and unpack messages are generated from attr_tarpan.proto; the code relies on unpacking
what was packed and on a message not being empty.
-/
import Tarpan.Bgpd.Tarpan.Store

namespace Tarpan.Bgpd

open TarpanStore Base Base.Packing

/-- `tarpan_msg__pack` and `tarpan_msg__unpack`. Reading inverts writing; nothing is read from no
octets, since `version` is required. -/
structure TarpanCodec where
  pack : TarpanMsg → List UInt8
  unpack : List UInt8 → Option TarpanMsg
  unpack_pack : ∀ msg, unpack (pack msg) = some msg
  unpack_nil : unpack [] = none

theorem TarpanCodec.pack_ne_nil (codec : TarpanCodec) (msg : TarpanMsg) : codec.pack msg ≠ [] := by
  intro h
  have := codec.unpack_pack msg
  rw [h, codec.unpack_nil] at this
  cases this

/-! ## A codec -/

namespace Packing

def wireField : Packing WireField :=
  (word.pair (octet.pair octet.list)).imap (fun f => (f.tag, f.wireType, f.data)) (fun x => some ⟨x.1, x.2.1, x.2.2⟩)
    fun _ => rfl

def unknown (known : List UInt32) : Packing (Unknown known) :=
  wireField.list.imap Unknown.fields (fun fs => if h : ∀ f ∈ fs, f.tag ∉ known then some ⟨fs, h⟩ else none)
    fun u => dif_pos u.tag_notMem

def ipAddress : Packing IPAddress :=
  (word.pair (unknown _)).imap (fun a => (a.bytes, a.unknown)) (fun x => some ⟨x.1, x.2⟩) fun _ => rfl

def wiser : Packing Wiser :=
  (word.pair (word.pair (ipAddress.pair (unknown _)))).imap
    (fun w => (w.pathCost, w.senderAs, w.senderAddress, w.unknown))
    (fun x => some ⟨x.1, x.2.1, x.2.2.1, x.2.2.2⟩) fun _ => rfl

def pathlets : Packing Pathlets :=
  ((word.imap Int32.toUInt32 (some ·.toInt32) fun _ => rfl).list.pair (unknown _)).imap (fun p => (p.meow, p.unknown))
    (fun x => some ⟨x.1, x.2⟩) fun _ => rfl

def tarpanMsg : Packing TarpanMsg :=
  (word.pair (wiser.option.pair (pathlets.option.pair (unknown _)))).imap
    (fun msg => (msg.version, msg.wiser, msg.pathlets, msg.unknown))
    (fun x => some ⟨x.1, x.2.1, x.2.2.1, x.2.2.2⟩) fun _ => rfl

end Packing

/-- All fields of a message one after the other. -/
def TarpanCodec.plain : TarpanCodec where
  pack := Packing.tarpanMsg.put
  unpack octets := (Packing.tarpanMsg.get octets).map Prod.fst
  unpack_pack msg := by
    have := Packing.tarpanMsg.get_put msg []
    rw [List.append_nil] at this
    rw [this, Option.map_some]
  unpack_nil := rfl

/-! ## The handlers -/

/-- `struct tarpan_protocol_handler` without the comparison: each function is given the AS of the
peer, the instance and the protocol's own state, and changes that state and the message. -/
structure TarpanProtocolHandler (σ : Type) where
  packetReceivedHandler : UInt32 → Bgp → σ → TarpanMsg → σ × TarpanMsg
  initializePacket : UInt32 → Bgp → σ → TarpanMsg → σ × TarpanMsg
  updatePacket : UInt32 → Bgp → σ → TarpanMsg → σ × TarpanMsg

/-- A BGP process as far as Tarpan goes. -/
structure Speaker (σ : Type) where
  bgp : Bgp
  state : σ
  store : TarpanStore

section Calls
variable {σ : Type} (codec : TarpanCodec) (handler : Option (TarpanProtocolHandler σ)) (peerAs : UInt32)

def tarpanVersion : UInt32 := 12
def tarpanMessageNew : TarpanMsg := { version := tarpanVersion }

/-- `tarpan_copy` into the new attribute `t`: the copy is packed and unpacked again. -/
def tarpanCopy (s : TarpanStore) (tarp t : TarpanAttr) : Option TarpanStore :=
  match s.content tarp with
  | none => some s
  | some msg => (codec.unpack (codec.pack msg)).map (s.place t)

section
variable (f : TarpanProtocolHandler σ → UInt32 → Bgp → σ → TarpanMsg → σ × TarpanMsg) (sp : Speaker σ)

/-- The call of one of the handler's functions on the message of `tarp`, which must be there. -/
def callHandler (tarp : TarpanAttr) : Option (Speaker σ) :=
  match handler with
  | none => some sp
  | some h =>
    (sp.store.content tarp).map fun msg =>
      let (state, msg) := f h peerAs sp.bgp sp.state msg
      { sp with state, store := sp.store.place tarp msg }

/-- A message after one of the functions of the active protocol. -/
def handled (peerAs : UInt32) (sp : Speaker σ) (msg : TarpanMsg) : TarpanMsg :=
  match handler with
  | none => msg
  | some h => (f h peerAs sp.bgp sp.state msg).2

/-- `tarpan_initialize_packet` on the new attribute `t`. -/
def tarpanInitializePacket (t : TarpanAttr) : Option (Speaker σ) :=
  callHandler handler peerAs (·.initializePacket) { sp with store := sp.store.place t tarpanMessageNew } t

/-- `tarpan_update_packet`; the copy goes to the new attribute `t`. -/
def tarpanUpdatePacket (tarp t : TarpanAttr) : Option (Speaker σ) :=
  (tarpanCopy codec sp.store tarp t).bind fun store =>
    callHandler handler peerAs (·.updatePacket) { sp with store } t

end

/-- The Tarpan part of `bgp_packet_attribute`: the octets of the attribute. What is sent lies at the
new attribute `t`. -/
def packetTarpan (sp : Speaker σ) (attrTarpan : Option TarpanAttr) (t : TarpanAttr) :
    Option (List UInt8 × Speaker σ) := do
  let sp ← match attrTarpan with
    | none => tarpanInitializePacket handler peerAs sp t
    | some tarp => tarpanUpdatePacket codec handler peerAs sp tarp t
  let msg ← sp.store.content t
  pure (codec.pack msg, sp)

/-- A message that was received, or made for an UPDATE that has none: it is interned with the new
attribute `t` and given to the handler. -/
def tarpanReceived (sp : Speaker σ) (msg : TarpanMsg) (t : TarpanAttr) : Option (TarpanAttr × Speaker σ) := do
  let (tarpan, store) ← tarpanIntern (sp.store.place t msg) t
  let sp ← callHandler handler peerAs (·.packetReceivedHandler) { sp with store } tarpan
  pure (tarpan, sp)

/-- `bgp_tarpan_parse` with `tarpan_parse`: the octets must be a message. -/
def bgpTarpanParse (sp : Speaker σ) (octets : List UInt8) (t : TarpanAttr) : Option (Option TarpanAttr × Speaker σ) :=
  if octets = [] then some (none, sp)
  else do
    let msg ← codec.unpack octets
    let (tarpan, sp) ← tarpanReceived handler peerAs sp msg t
    pure (some tarpan, sp)

/-- A message that is received with newly allocated memory is interned, and the store stays in order. -/
theorem tarpanReceived_spec (msg : TarpanMsg) {sp : Speaker σ} {t : TarpanAttr} (hs : sp.store.Ok)
    (hfr : sp.store.Fresh t) :
    ∃ tarpan sp', tarpanReceived handler peerAs sp msg t = some (tarpan, sp') ∧ sp'.store.Ok ∧
      sp'.store.Live tarpan := by
  obtain ⟨find, s, hint, hok, hlive, -⟩ := tarpanIntern_spec msg hs hfr
  have hfind : s.Live find := (hlive find).2 (.inr rfl)
  obtain ⟨got, hgot⟩ := Option.isSome_iff_exists.1 (hok.allocated find hfind)
  cases handler with
  | none => exact ⟨find, { sp with store := s }, by simp [tarpanReceived, hint, callHandler], hok, hfind⟩
  | some h =>
    let after := h.packetReceivedHandler peerAs sp.bgp sp.state got
    refine ⟨find, { sp with state := after.1, store := s.place find after.2 },
      by simp [tarpanReceived, hint, callHandler, hgot, after], place_ok hok, ?_⟩
    rw [TarpanStore.Live, place_table]
    exact hfind

variable {handler peerAs} {sp : Speaker σ} {t : TarpanAttr}

theorem callHandler_content {f : TarpanProtocolHandler σ → UInt32 → Bgp → σ → TarpanMsg → σ × TarpanMsg}
    {msg : TarpanMsg} (hmsg : sp.store.content t = some msg) :
    ∃ sp', callHandler handler peerAs f sp t = some sp' ∧
      sp'.store.content t = some (handled handler f peerAs sp msg) := by
  cases handler with
  | none => exact ⟨sp, rfl, hmsg⟩
  | some h =>
    have hsome : t.message.isSome := by
      obtain ⟨m, hm, -⟩ := Option.bind_eq_some_iff.1 hmsg
      rw [hm]
      rfl
    unfold callHandler
    dsimp only
    rw [hmsg]
    exact ⟨_, rfl, place_content_self hsome⟩

/-- What is received stands under the message that it is interned as, after the protocol has handled it. -/
theorem tarpanReceived_content (msg : TarpanMsg) (hs : sp.store.Ok) (hfr : sp.store.Fresh t) :
    ∃ tarpan sp' m, tarpanReceived handler peerAs sp msg t = some (tarpan, sp') ∧ sp.store.InternsAs t msg m ∧
      sp'.store.content tarpan = some (handled handler (·.packetReceivedHandler) peerAs sp m) := by
  obtain ⟨find, s, m, hint, has, hcontent⟩ := tarpanIntern_internsAs msg hs hfr
  obtain ⟨sp', hcall, hcon'⟩ := @callHandler_content σ handler peerAs { sp with store := s } find
    (·.packetReceivedHandler) m hcontent
  refine ⟨find, sp', m, ?_, has, hcon'⟩
  simp [tarpanReceived, hint, hcall]

end Calls

end Tarpan.Bgpd
