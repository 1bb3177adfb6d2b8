/-
Reading messages from a connection (bgp_packet.c, `bgp_read` and `bgp_read_packet`). A call of
`bgp_read` reads at most twice: for the header and for the rest of the message. What it has read of a
message stays in the input buffer for the next call, so on the connection of a configured peer the
messages are dispatched as they were sent, however the octets arrive. The peer that `bgp_accept` makes
for a new connection is deleted at the end of its first call, also where this call has not read a
whole message.
-/
import Tarpan.Lib.Stream

namespace Tarpan.Bgpd

open Base Lib List Stream
open Option (bind_eq_bind bind_some)

/-! ## Messages -/

/-- The types of messages, `BGP_MSG_OPEN` and so on. -/
inductive BgpMsgType where
  | msgOpen | msgUpdate | msgNotify | msgKeepalive | msgRouteRefreshNew | msgCapability | msgRouteRefreshOld
  deriving DecidableEq

def BgpMsgType.code : BgpMsgType → UInt8
  | msgOpen => 1
  | msgUpdate => 2
  | msgNotify => 3
  | msgKeepalive => 4
  | msgRouteRefreshNew => 5
  | msgCapability => 6
  | msgRouteRefreshOld => 128

def BgpMsgType.ofCode (c : UInt8) : Option BgpMsgType :=
  [msgOpen, msgUpdate, msgNotify, msgKeepalive, msgRouteRefreshNew, msgCapability, msgRouteRefreshOld].find?
    (·.code == c)

@[simp] theorem BgpMsgType.ofCode_code (type : BgpMsgType) : ofCode type.code = some type := by cases type <;> rfl

def bgpMarkerSize : Nat := 16
def bgpHeaderSize : Nat := 19
def bgpMaxPacketSize : Nat := 4096

/-- The least length of a message of each type; a KEEPALIVE has no other one. -/
def BgpMsgType.minSize : BgpMsgType → Nat
  | msgOpen => bgpHeaderSize + 10
  | msgUpdate => bgpHeaderSize + 4
  | msgNotify => bgpHeaderSize + 2
  | msgKeepalive => bgpHeaderSize
  | msgRouteRefreshNew => bgpHeaderSize + 4
  | msgCapability => bgpHeaderSize + 3
  | msgRouteRefreshOld => bgpHeaderSize + 4

/-- The length passes the check of `bgp_read`. -/
def BgpMsgType.SizeOk (type : BgpMsgType) (size : Nat) : Prop :=
  bgpHeaderSize ≤ size ∧ size ≤ bgpMaxPacketSize ∧
    if type = msgKeepalive then size = type.minSize else type.minSize ≤ size

instance (type : BgpMsgType) (size : Nat) : Decidable (type.SizeOk size) := by
  unfold BgpMsgType.SizeOk
  infer_instance

/-- The types for which the marker is checked. -/
def BgpMsgType.marked (type : BgpMsgType) : Bool := type = msgOpen || type = msgKeepalive

/-- A message with a valid header. -/
structure BgpMessage where
  marker : List UInt8
  type : BgpMsgType
  body : List UInt8
  marker_length : marker.length = bgpMarkerSize
  marker_ones : type.marked → ∀ b ∈ marker, b = 0xff
  size_ok : type.SizeOk (bgpHeaderSize + body.length)

def BgpMessage.size (m : BgpMessage) : Nat := bgpHeaderSize + m.body.length
def BgpMessage.header (m : BgpMessage) : List UInt8 := m.marker ++ (beBytes 2 m.size ++ [m.type.code])
def BgpMessage.wire (m : BgpMessage) : List UInt8 := m.header ++ m.body

/-! ## The reader -/

/-- The part of `struct peer` that `bgp_read` works on; `accept` is `PEER_STATUS_ACCEPT_PEER`. -/
structure Reader where
  accept : Bool
  packetSize : Nat
  ibuf : Stream

/-- What `bgp_read_packet` returns: 0, -1 where octets are missing, or -1 after an event that ends the
session. -/
inductive PacketRet where
  | full | part | lost
  deriving DecidableEq

/-- `bgp_read_packet`; `readsize` becomes a `size_t`. -/
def bgpReadPacket (r : Reader) (socket : List UInt8) (t : ReadTry) : Option (PacketRet × Reader × List UInt8) :=
  let readsize : Int := r.packetSize - r.ibuf.endp
  if readsize = 0 then some (.full, r, socket)
  else do
    let (nbytes, ibuf, socket) ← streamReadTry r.ibuf socket (readsize % 2 ^ 64).toNat t
    let r := { r with ibuf }
    match nbytes with
    | .transient => pure (.part, r, socket)
    | .fatal => pure (.lost, r, socket)
    | .octets 0 => pure (.lost, r, socket)
    | .octets _ => pure (if ibuf.endp ≠ r.packetSize then .part else .full, r, socket)

def bgpMarkerAllOne (s : Stream) (length : Nat) : Bool := (s.data.take length).all (· == 0xff)

inductive HeaderErr where
  | notSync | badMesLen (length : List UInt8) | badMesType (type : UInt8)
  deriving DecidableEq

/-- The length as it stands in the header, size and type; the position is then behind the header. -/
def getSizeAndType (ibuf : Stream) : Option (List UInt8 × UInt16 × UInt8 × Stream) := do
  let ibuf ← streamForwardGetp ibuf bgpMarkerSize
  let notifyDataLength := ibuf.unread.take 2
  let (size, ibuf) ← streamGetw ibuf
  let (type, ibuf) ← streamGetc ibuf
  pure (notifyDataLength, size, type, ibuf)

def headerCheck (ibuf : Stream) (notifyDataLength : List UInt8) (size : Nat) (type : UInt8) : Except HeaderErr Unit :=
  match BgpMsgType.ofCode type with
  | none => .error (.badMesType type)
  | some msgType =>
    if msgType.marked ∧ ¬ bgpMarkerAllOne ibuf bgpMarkerSize then .error .notSync
    else if ¬ msgType.SizeOk size then .error (.badMesLen notifyDataLength)
    else .ok ()

/-- A message as the function for its type is given it: the size, and the unread octets of the buffer. -/
structure Dispatch where
  type : BgpMsgType
  size : Nat
  unread : List UInt8
  deriving DecidableEq

/-- A connection: the peer that reads it as long as it is read, the octets to come, and what was done. -/
structure ReadConn where
  reader : Option Reader
  socket : List UInt8
  dispatched : List Dispatch := []
  notified : Option HeaderErr := none

/-- The label `done`: an accepted peer is deleted. -/
def Reader.done (r : Reader) : Option Reader := if r.accept then none else some r

section Calls

/- Whether the connection is read on after the function for a message: the message does not end the
session, and an OPEN of an accepted peer is handed over to the configured one. -/
variable (goesOn : Dispatch → Bool)

/-- The rest of `bgp_read` after a whole message has been read. The configured peer that an accepted
connection is handed over to starts with an empty buffer. -/
def bgpReadDispatch (c : ReadConn) (r : Reader) : Option ReadConn := do
  let _ ← streamGetwFrom r.ibuf bgpMarkerSize
  let type ← streamGetcFrom r.ibuf (bgpMarkerSize + 2)
  let fresh := { r with packetSize := 0, ibuf := streamReset r.ibuf }
  match BgpMsgType.ofCode type with
  | none => pure { c with reader := fresh.done }
  | some type =>
    let d : Dispatch := ⟨type, r.packetSize - bgpHeaderSize, r.ibuf.unread⟩
    let dispatched := c.dispatched ++ [d]
    if !goesOn d then pure { c with reader := none, dispatched }
    else if r.accept ∧ type ≠ .msgOpen then pure { c with reader := none, dispatched }
    else pure { c with reader := some { fresh with accept := false }, dispatched }

/-- The second reading of `bgp_read`. -/
def bgpReadBody (c : ReadConn) (r : Reader) (socket : List UInt8) (t : ReadTry) : Option ReadConn := do
  let (ret, r, socket) ← bgpReadPacket r socket t
  match ret with
  | .full => bgpReadDispatch goesOn { c with socket } r
  | .part => pure { c with reader := r.done, socket }
  | .lost => pure { c with reader := none, socket }

/-- The first reading of `bgp_read`, for the header. -/
def bgpReadHeader (c : ReadConn) (r : Reader) (t1 t2 : ReadTry) : Option ReadConn := do
  let (ret, r, socket) ← bgpReadPacket r c.socket t1
  match ret with
  | .part => pure { c with reader := r.done, socket }
  | .lost => pure { c with reader := none, socket }
  | .full =>
    let (notifyDataLength, size, type, ibuf) ← getSizeAndType r.ibuf
    match headerCheck ibuf notifyDataLength size.toNat type with
    | .error err => pure { c with reader := none, socket, notified := some err }
    | .ok () => bgpReadBody goesOn c { r with ibuf, packetSize := size.toNat } socket t2

/-- `bgp_read` with what its readings meet; nobody calls it for a connection that is not read. -/
def bgpRead (c : ReadConn) (t1 t2 : ReadTry) : Option ReadConn :=
  match c.reader with
  | none => some c
  | some r =>
    let r := if r.packetSize = 0 then { r with packetSize := bgpHeaderSize } else r
    if r.ibuf.endp < bgpHeaderSize then bgpReadHeader goesOn c r t1 t2 else bgpReadBody goesOn c r c.socket t1

/-- Calls of `bgp_read`, each with what its two readings meet. -/
def bgpReads : List (ReadTry × ReadTry) → ReadConn → Option ReadConn
  | [], c => some c
  | (t1, t2) :: calls, c => (bgpRead goesOn c t1 t2).bind (bgpReads calls)

end Calls

/-! ## One reading -/

/-- The stream `s'` and the octets `socket'` after `n` octets went from the connection to the stream. -/
structure Moved (s : Stream) (socket : List UInt8) (n : Nat) (s' : Stream) (socket' : List UInt8) : Prop where
  octets : s'.data ++ socket' = s.data ++ socket
  data : s'.data.length = s.data.length + n
  socket : socket'.length + n = socket.length
  getp : s'.getp = s.getp
  size : s'.size = s.size

variable {socket : List UInt8} {n : Nat}

theorem Moved.of_appended {s s' : Stream} (h : s.Appended (socket.take n) s')
    (hn : n ≤ socket.length) : Moved s socket n s' (socket.drop n) where
  octets := by rw [h.data, append_assoc, take_append_drop]
  data := by rw [h.data, length_append, length_take, Nat.min_eq_left hn]
  socket := by rw [length_drop, Nat.sub_add_cancel hn]
  getp := h.getp
  size := h.size

variable {r : Reader} {m : BgpMessage}

section
variable (hfits : r.packetSize ≤ r.ibuf.size) (hroom : r.ibuf.size = bgpMaxPacketSize) {t : ReadTry}
include hfits hroom

theorem readsize_toNat (hn : r.packetSize = r.ibuf.data.length + n) :
    (((r.packetSize : Int) - r.ibuf.data.length) % 2 ^ 64).toNat = n := by
  rw [bgpMaxPacketSize] at hroom
  omega

theorem bgpReadPacket_nil (ht : t.Up) (hlt : r.ibuf.data.length < r.packetSize) :
    bgpReadPacket r [] t = some (.part, r, []) := by
  have hsize := readsize_toNat hfits hroom (n := r.packetSize - r.ibuf.data.length) (by omega)
  unfold bgpReadPacket endp
  rw [if_neg (by omega), hsize, streamReadTry_nil ht (by rw [writeable, endp]; omega)]
  rfl

/-- Where the wanted octets are there, a reading gains what the try allows, and is full with the last one. -/
theorem bgpReadPacket_spec (ht : t.Up) (hn : r.packetSize = r.ibuf.data.length + n) (hsocket : n ≤ socket.length) :
    ∃ ibuf socket', bgpReadPacket r socket t = some (if t.gain n = n then .full else .part, { r with ibuf }, socket') ∧
      Moved r.ibuf socket (t.gain n) ibuf socket' := by
  unfold bgpReadPacket endp
  rcases Nat.eq_zero_or_pos n with rfl | hpos
  · have hgain : t.gain 0 = 0 := Nat.le_zero.1 (t.gain_le 0)
    refine ⟨r.ibuf, socket, ?_, rfl, by rw [hgain, Nat.add_zero], by rw [hgain, Nat.add_zero], rfl, rfl⟩
    rw [if_pos (by omega), hgain, if_pos rfl]
  have hsize := readsize_toNat hfits hroom hn
  have hwrite : n ≤ r.ibuf.writeable := by
    rw [writeable, endp]
    omega
  obtain ⟨ibuf, htry, hibuf⟩ := streamReadTry_spec ht hwrite hpos hsocket
  have hmv := Moved.of_appended hibuf ((t.gain_le n).trans hsocket)
  have hlen := hmv.data
  refine ⟨ibuf, _, ?_, hmv⟩
  rw [if_neg (by omega), hsize, bind_of_some htry]
  dsimp only
  cases hgain : t.gain n with
  | zero =>
    rw [if_pos rfl, if_neg (Nat.ne_of_lt hpos)]
    rfl
  | succ k =>
    rw [if_neg (Nat.succ_ne_zero k), hn]
    by_cases hfull : k + 1 = n
    · rw [if_pos hfull, if_neg (by omega)]
      rfl
    · rw [if_neg hfull, if_pos (by omega)]
      rfl

end

/-! ## A message in the buffer -/

/-- What the function for the message should be given. -/
def BgpMessage.dispatch (m : BgpMessage) : Dispatch := ⟨m.type, m.body.length, m.body⟩

/-- The peer that starts to read a connection. -/
def Reader.start (accept : Bool) : Reader := ⟨accept, 0, streamNew bgpMaxPacketSize⟩

section Message
variable (m : BgpMessage) {ibuf : Stream}

theorem BgpMessage.header_length : m.header.length = bgpHeaderSize := by
  simp [header, m.marker_length, bgpMarkerSize, bgpHeaderSize]

theorem BgpMessage.wire_length : m.wire.length = m.size := by
  rw [wire, length_append, m.header_length, size]

theorem BgpMessage.size_le : m.size ≤ bgpMaxPacketSize := m.size_ok.2.1

theorem BgpMessage.size_toNat : (UInt16.ofNat m.size).toNat = m.size :=
  UInt16.toNat_ofNat_of_lt' (m.size_le.trans_lt (by decide))

theorem BgpMessage.headerCheck_ok (hdata : ibuf.data = m.header) (length : List UInt8) :
    headerCheck ibuf length m.size m.type.code = .ok () := by
  have hmarker : ibuf.data.take bgpMarkerSize = m.marker := by rw [hdata, header, take_left' m.marker_length]
  have hones : ¬ (m.type.marked ∧ ¬ bgpMarkerAllOne ibuf bgpMarkerSize) := by
    rintro ⟨hmarked, hnot⟩
    apply hnot
    rw [bgpMarkerAllOne, hmarker, all_eq_true]
    intro b hb
    exact beq_iff_eq.2 (m.marker_ones hmarked b hb)
  unfold headerCheck
  rw [BgpMsgType.ofCode_code]
  dsimp only
  rw [if_neg hones, if_neg (fun hsize => hsize m.size_ok)]

theorem BgpMessage.getSizeAndType_header (hdata : ibuf.data = m.header) (hgetp : ibuf.getp = 0) :
    getSizeAndType ibuf = some (beBytes 2 m.size, UInt16.ofNat m.size, m.type.code, ibuf.advance bgpHeaderSize) := by
  have hunr : ibuf.unread = m.header := by rw [unread, hgetp, hdata, drop_zero]
  have hmarker : bgpMarkerSize ≤ ibuf.readable := by
    rw [← m.marker_length]
    exact le_readable hunr
  have hlength : (ibuf.advance bgpMarkerSize).unread = beBytes 2 (UInt16.ofNat m.size).toNat ++ [m.type.code] := by
    rw [unread_advance, hunr, header, drop_left' m.marker_length, m.size_toNat]
  have htype : (ibuf.advance (bgpMarkerSize + 2)).unread = m.type.code :: [] := by
    rw [← advance_advance, unread_advance, hlength, drop_left' (beBytes_length _ _)]
  unfold getSizeAndType
  rw [streamForwardGetp_eq, if_pos hmarker]
  simp only [bind_eq_bind, bind_some, streamGetw_of_unread hlength, streamGetc_of_unread htype, hlength, m.size_toNat,
    advance_advance]
  rfl

/-- The peer after a message of which the function was called. -/
def ReadConn.after (goesOn : Dispatch → Bool) (c : ReadConn) (accept : Bool) (m : BgpMessage) : ReadConn :=
  { c with
    reader := if goesOn m.dispatch ∧ (accept → m.type = .msgOpen) then some (.start false) else none
    dispatched := c.dispatched ++ [m.dispatch] }

theorem bgpReadDispatch_spec (goesOn : Dispatch → Bool) (c : ReadConn) (hdata : r.ibuf.data = m.wire)
    (hgetp : r.ibuf.getp = bgpHeaderSize) (hsize : r.ibuf.size = bgpMaxPacketSize) (hpkt : r.packetSize = m.size) :
    bgpReadDispatch goesOn c r = some (c.after goesOn r.accept m) := by
  have hwire : m.wire = m.marker ++ (beBytes 2 (UInt16.ofNat m.size).toNat ++ m.type.code :: m.body) := by
    rw [m.size_toNat, BgpMessage.wire, BgpMessage.header]
    simp
  have hword := streamGetwFrom_of_data (hdata.trans hwire) m.marker_length
  have hcode : streamGetcFrom r.ibuf (bgpMarkerSize + 2) = some m.type.code := by
    rw [← append_assoc] at hwire
    exact streamGetcFrom_of_data (hdata.trans hwire) (by simp [m.marker_length])
  have hunr : r.ibuf.unread = m.body := by
    rw [unread, hgetp, hdata, BgpMessage.wire, drop_left' m.header_length]
  have hbody : r.packetSize - bgpHeaderSize = m.body.length := by
    rw [hpkt, BgpMessage.size, Nat.add_sub_cancel_left]
  have hdsp : (⟨m.type, m.body.length, m.body⟩ : Dispatch) = m.dispatch := rfl
  unfold bgpReadDispatch ReadConn.after
  simp only [bind_eq_bind, bind_some, hword, hcode, BgpMsgType.ofCode_code, hunr, hbody, hdsp, streamReset, hsize]
  by_cases hgoes : goesOn m.dispatch <;> by_cases hacc : r.accept <;> by_cases htype : m.type = .msgOpen <;>
    simp [hgoes, hacc, htype, Reader.start]

end Message

/-! ## One call -/

/-- The reader has read a part of the first message; the rest of it and what follows is to come. -/
structure Reading (r : Reader) (socket : List UInt8) (m : BgpMessage) (rest : List UInt8) : Prop where
  size : r.ibuf.size = bgpMaxPacketSize
  octets : r.ibuf.data ++ socket = m.wire ++ rest
  part : r.ibuf.data.length < m.size
  header : r.ibuf.data.length < bgpHeaderSize → r.ibuf.getp = 0 ∧ (r.packetSize = 0 ∨ r.packetSize = bgpHeaderSize)
  body : bgpHeaderSize ≤ r.ibuf.data.length → r.ibuf.getp = bgpHeaderSize ∧ r.packetSize = m.size

theorem Reading.start (accept : Bool) (m : BgpMessage) (rest : List UInt8) :
    Reading (.start accept) (m.wire ++ rest) m rest where
  size := rfl
  octets := rfl
  part := by
    exact Nat.lt_of_lt_of_le (by decide : 0 < 19) (Nat.le_add_right _ _)
  header _ := ⟨rfl, .inl rfl⟩
  body h := absurd h (by simp [Reader.start, streamNew, bgpHeaderSize])

theorem Reading.rest_lt {rest : List UInt8} (h : Reading r socket m rest) : rest.length < socket.length := by
  have hlen := congrArg length h.octets
  have hpart := h.part
  rw [length_append, length_append, m.wire_length] at hlen
  omega

/-- The call reads the rest of the message. -/
def Reading.Completes (r : Reader) (m : BgpMessage) (t1 t2 : ReadTry) : Prop :=
  if r.ibuf.data.length < bgpHeaderSize then
    t1.gain (bgpHeaderSize - r.ibuf.data.length) = bgpHeaderSize - r.ibuf.data.length ∧
      t2.gain m.body.length = m.body.length
  else t1.gain (m.size - r.ibuf.data.length) = m.size - r.ibuf.data.length

section Call
variable (goesOn : Dispatch → Bool) (c : ReadConn) {r : Reader} {socket rest : List UInt8} {m : BgpMessage}

/-- What comes of a call: the message is dispatched where the call completes it, and otherwise the peer stands at the
same message, with `gain` octets more. -/
def Goes (accept : Bool) (m : BgpMessage) (rest : List UInt8) (completes : Prop) (gain length : Nat)
    (result : Option ReadConn) : Prop :=
  (completes ∧ result = some ({ c with socket := rest }.after goesOn accept m)) ∨
  (¬completes ∧ ∃ r' socket', result = some { c with reader := r'.done, socket := socket' } ∧
    Reading r' socket' m rest ∧ r'.accept = accept ∧ socket'.length + gain ≤ length)

theorem bgpReadBody_spec {t : ReadTry} (ht : t.Up) (hsize : r.ibuf.size = bgpMaxPacketSize)
    (hoct : r.ibuf.data ++ socket = m.wire ++ rest) (hhdr : bgpHeaderSize ≤ r.ibuf.data.length)
    (hle : r.ibuf.data.length ≤ m.size) (hgetp : r.ibuf.getp = bgpHeaderSize) (hpkt : r.packetSize = m.size) :
    Goes goesOn c r.accept m rest (t.gain (m.size - r.ibuf.data.length) = m.size - r.ibuf.data.length)
      (t.gain (m.size - r.ibuf.data.length)) socket.length (bgpReadBody goesOn c r socket t) := by
  generalize hmis : m.size - r.ibuf.data.length = n
  have hn : r.packetSize = r.ibuf.data.length + n := by omega
  have hfits : r.packetSize ≤ r.ibuf.size := by
    rw [hpkt, hsize]
    exact m.size_le
  have hlen := congrArg length hoct
  rw [length_append, length_append, m.wire_length] at hlen
  have hgain := t.gain_le n
  obtain ⟨ibuf, socket', hread, hmv⟩ := bgpReadPacket_spec hfits hsize ht hn (show n ≤ socket.length by omega)
  have hdata := hmv.data
  unfold bgpReadBody
  rw [hread, bind_eq_bind]
  by_cases hfull : t.gain n = n
  · left
    obtain ⟨hwire, rfl⟩ := append_inj (hmv.octets.trans hoct) (by rw [hdata, m.wire_length]; omega)
    rw [if_pos hfull]
    exact ⟨hfull, bgpReadDispatch_spec m goesOn _ hwire (hmv.getp.trans hgetp) (hmv.size.trans hsize) hpkt⟩
  · right
    rw [if_neg hfull]
    refine ⟨hfull, { r with ibuf }, socket', rfl, ⟨hmv.size.trans hsize, hmv.octets.trans hoct, ?_, ?_, ?_⟩,
      rfl, hmv.socket.le⟩
    · change ibuf.data.length < m.size
      omega
    · intro hshort
      change ibuf.data.length < bgpHeaderSize at hshort
      omega
    · intro _
      exact ⟨hmv.getp.trans hgetp, hpkt⟩

variable {t1 t2 : ReadTry}

/-- Reading the header, and the body with the second try where the header is complete. -/
theorem bgpReadHeader_spec (ht1 : t1.Up) (ht2 : t2.Up) (hsize : r.ibuf.size = bgpMaxPacketSize)
    (hoct : r.ibuf.data ++ c.socket = m.wire ++ rest) (hhdr : r.ibuf.data.length < bgpHeaderSize)
    (hgetp : r.ibuf.getp = 0) (hpkt : r.packetSize = bgpHeaderSize) :
    Goes goesOn c r.accept m rest (t1.gain (bgpHeaderSize - r.ibuf.data.length) = bgpHeaderSize - r.ibuf.data.length ∧
        t2.gain m.body.length = m.body.length) (t1.gain (bgpHeaderSize - r.ibuf.data.length)) c.socket.length
      (bgpReadHeader goesOn c r t1 t2) := by
  generalize hmis : bgpHeaderSize - r.ibuf.data.length = n
  have hn : r.packetSize = r.ibuf.data.length + n := by omega
  have hfits : r.packetSize ≤ r.ibuf.size := by
    rw [hpkt, hsize]
    decide
  have hlen := congrArg length hoct
  rw [length_append, length_append, m.wire_length, BgpMessage.size] at hlen
  have hgain := t1.gain_le n
  obtain ⟨ibuf, socket', hread, hmv⟩ := bgpReadPacket_spec hfits hsize ht1 hn (show n ≤ c.socket.length by omega)
  have hdata := hmv.data
  have hsocket := hmv.socket
  have hoct' := hmv.octets.trans hoct
  by_cases hfull : t1.gain n = n
  · -- the header is complete: what is read next is the body
    have hhead : ibuf.data = m.header := by
      rw [BgpMessage.wire, append_assoc] at hoct'
      exact (append_inj hoct' (by rw [hdata, m.header_length]; omega)).1
    have hdata' : (ibuf.advance bgpHeaderSize).data = m.header := hhead
    have hgo : bgpReadHeader goesOn c r t1 t2 =
        bgpReadBody goesOn c ⟨r.accept, m.size, ibuf.advance bgpHeaderSize⟩ socket' t2 := by
      rw [bgpReadHeader, bind_of_some hread, if_pos hfull]
      dsimp only
      rw [bind_of_some (m.getSizeAndType_header hhead (hmv.getp.trans hgetp))]
      rw [m.size_toNat, m.headerCheck_ok hdata']
    have hadvance : (ibuf.advance bgpHeaderSize).getp = bgpHeaderSize := by
      rw [advance_getp, hmv.getp, hgetp, Nat.zero_add]
      rw [readable, endp, hhead, m.header_length, hmv.getp, hgetp]
      exact Nat.le_refl _
    have hbody : m.size - (ibuf.advance bgpHeaderSize).data.length = m.body.length := by
      rw [hdata', m.header_length, BgpMessage.size, Nat.add_sub_cancel_left]
    have hnext := @bgpReadBody_spec goesOn c ⟨r.accept, m.size, ibuf.advance bgpHeaderSize⟩ socket' rest m t2 ht2
      (hmv.size.trans hsize) hoct' (by rw [hdata', m.header_length])
      (by rw [hdata', m.header_length]; exact Nat.le_add_right _ _) hadvance rfl
    rw [hbody] at hnext
    rw [hgo]
    rcases hnext with ⟨hboth, hnext⟩ | ⟨hnot, r', socket'', hnext, hreading, hacc, hlength⟩
    · exact .inl ⟨⟨hfull, hboth⟩, hnext⟩
    · exact .inr ⟨fun hboth => hnot hboth.2, r', socket'', hnext, hreading, hacc, by omega⟩
  · right
    refine ⟨fun hboth => hfull hboth.1, { r with ibuf }, socket', ?_,
      ⟨hmv.size.trans hsize, hoct', ?_, ?_, ?_⟩, rfl, hsocket.le⟩
    · rw [bgpReadHeader, bind_of_some hread, if_neg hfull]
      rfl
    · change ibuf.data.length < m.size
      rw [BgpMessage.size]
      omega
    · intro _
      exact ⟨hmv.getp.trans hgetp, .inr hpkt⟩
    · intro hlong
      change bgpHeaderSize ≤ ibuf.data.length at hlong
      omega

section
variable (hreader : c.reader = some r)
include hreader

theorem bgpRead_header (t1 t2 : ReadTry) (hhdr : r.ibuf.data.length < bgpHeaderSize)
    (hpkt : r.packetSize = 0 ∨ r.packetSize = bgpHeaderSize) :
    bgpRead goesOn c t1 t2 = bgpReadHeader goesOn c { r with packetSize := bgpHeaderSize } t1 t2 := by
  -- `packet_size` becomes the length of a header
  have hsized : (if r.packetSize = 0 then { r with packetSize := bgpHeaderSize } else r) =
      { r with packetSize := bgpHeaderSize } := by
    rcases hpkt with hzero | hfull
    · rw [if_pos hzero]
    · rw [if_neg (by rw [hfull]; decide), ← hfull]
  rw [bgpRead, hreader]
  dsimp only
  rw [hsized]
  exact if_pos hhdr

theorem bgpRead_body (t1 t2 : ReadTry) (hhdr : bgpHeaderSize ≤ r.ibuf.data.length)
    (hpkt : r.packetSize ≠ 0) : bgpRead goesOn c t1 t2 = bgpReadBody goesOn c r c.socket t1 := by
  rw [bgpRead, hreader]
  dsimp only
  rw [if_neg hpkt]
  exact if_neg (Nat.not_lt.2 hhdr)

/-- A call on a connection that has a message to come: the message is dispatched exactly where the call
completes it, and otherwise the peer stands at the same message. Octets are gained if one can be. -/
theorem bgpRead_spec (ht1 : t1.Up) (ht2 : t2.Up) (h : Reading r c.socket m rest) :
    Goes goesOn c r.accept m rest (Reading.Completes r m t1 t2) (t1.gain 1) c.socket.length
      (bgpRead goesOn c t1 t2) := by
  unfold Reading.Completes
  by_cases hhdr : r.ibuf.data.length < bgpHeaderSize
  · obtain ⟨hgetp, hpkt⟩ := h.header hhdr
    have hgain := t1.gain_one_le (Nat.sub_pos_of_lt hhdr)
    rw [bgpRead_header goesOn c hreader t1 t2 hhdr hpkt, if_pos hhdr]
    rcases @bgpReadHeader_spec goesOn c { r with packetSize := bgpHeaderSize } rest m t1 t2 ht1 ht2 h.size h.octets
      hhdr hgetp rfl with ⟨hboth, hgo⟩ | ⟨hnot, r', socket', hgo, hreading, hacc, hlength⟩
    · exact .inl ⟨hboth, hgo⟩
    · exact .inr ⟨hnot, r', socket', hgo, hreading, hacc, by dsimp only at hlength; omega⟩
  · obtain ⟨hgetp, hpkt⟩ := h.body (Nat.not_lt.1 hhdr)
    have hsized : r.packetSize ≠ 0 := by
      rw [hpkt, BgpMessage.size, bgpHeaderSize]
      omega
    have hgain := t1.gain_one_le (Nat.sub_pos_of_lt h.part)
    rw [bgpRead_body goesOn c hreader t1 t2 (Nat.not_lt.1 hhdr) hsized, if_neg hhdr]
    rcases bgpReadBody_spec goesOn c ht1 h.size h.octets (Nat.not_lt.1 hhdr) h.part.le hgetp hpkt with
      ⟨hfull, hgo⟩ | ⟨hnot, r', socket', hgo, hreading, hacc, hlength⟩
    · exact .inl ⟨hfull, hgo⟩
    · exact .inr ⟨hnot, r', socket', hgo, hreading, hacc, by omega⟩

theorem bgpRead_nil (ht1 : t1.Up) (hsocket : c.socket = [])
    (hdata : r.ibuf.data = []) (hsize : r.ibuf.size = bgpMaxPacketSize)
    (hpkt : r.packetSize = 0 ∨ r.packetSize = bgpHeaderSize) :
    bgpRead goesOn c t1 t2 = some { c with reader := ({ r with packetSize := bgpHeaderSize } : Reader).done } := by
  have hhdr : r.ibuf.data.length < bgpHeaderSize := by
    rw [hdata]
    decide
  have hread := @bgpReadPacket_nil { r with packetSize := bgpHeaderSize }
    (by dsimp only; rw [hsize]; decide) hsize t1 ht1 hhdr
  rw [bgpRead_header goesOn c hreader t1 t2 hhdr hpkt, bgpReadHeader, hsocket, hread]
  rfl

end

end Call

/-! ## All calls -/

section Calls
variable (goesOn : Dispatch → Bool) {c : ReadConn}

/-- The messages that are dispatched before the session ends; an accepted connection goes on only with
an OPEN. -/
def sessionPart : Bool → List BgpMessage → List BgpMessage
  | _, [] => []
  | accept, m :: ms =>
    m :: if goesOn m.dispatch ∧ (accept → m.type = .msgOpen) then sessionPart false ms else []

/-- The peer stands at the first of the messages. -/
def ReadyFor (r : Reader) (socket : List UInt8) : List BgpMessage → Prop
  | [] => socket = [] ∧ r.ibuf.data = [] ∧ r.ibuf.size = bgpMaxPacketSize ∧
      (r.packetSize = 0 ∨ r.packetSize = bgpHeaderSize)
  | m :: ms => Reading r socket m (ms.flatMap BgpMessage.wire)

theorem readyFor_start (accept : Bool) (msgs : List BgpMessage) :
    ReadyFor (.start accept) (msgs.flatMap BgpMessage.wire) msgs := by
  cases msgs with
  | nil => exact ⟨rfl, rfl, rfl, .inl rfl⟩
  | cons m ms => exact Reading.start accept m _

theorem bgpReads_of_reader_none (h : c.reader = none) :
    ∀ calls : List (ReadTry × ReadTry), bgpReads goesOn calls c = some c
  | [] => rfl
  | (t1, t2) :: calls => by
    have hread : bgpRead goesOn c t1 t2 = some c := by rw [bgpRead, h]
    rw [bgpReads, hread, bind_some, bgpReads_of_reader_none h calls]

/-- After a message the peer that reads on starts afresh, so the calls that dispatch what follows for such
a peer do so here, unless the message ends the session. -/
theorem bgpReads_after (accept : Bool) (m : BgpMessage) {ms : List BgpMessage}
    {calls : List (ReadTry × ReadTry)} (hsocket : c.socket = ms.flatMap BgpMessage.wire)
    (hnext : ∀ c : ReadConn, c.reader = some (.start false) → c.socket = ms.flatMap BgpMessage.wire →
      ∃ c', bgpReads goesOn calls c = some c' ∧
        c'.dispatched = c.dispatched ++ (sessionPart goesOn false ms).map BgpMessage.dispatch) :
    ∃ c', bgpReads goesOn calls (c.after goesOn accept m) = some c' ∧
      c'.dispatched = c.dispatched ++ (sessionPart goesOn accept (m :: ms)).map BgpMessage.dispatch := by
  rw [sessionPart]
  by_cases hgoes : goesOn m.dispatch ∧ (accept → m.type = .msgOpen)
  · obtain ⟨c', hrun, hdsp⟩ := hnext (c.after goesOn accept m) (if_pos hgoes) hsocket
    refine ⟨c', hrun, ?_⟩
    rw [hdsp, if_pos hgoes, map_cons, append_cons]
    rfl
  · refine ⟨_, bgpReads_of_reader_none goesOn (if_neg hgoes) calls, ?_⟩
    rw [if_neg hgoes]
    rfl

/-- A configured peer dispatches the messages of the session in order, however many octets each call gets. -/
theorem bgpReads_dispatched : ∀ (calls : List (ReadTry × ReadTry)) (c : ReadConn) (r : Reader) (msgs : List BgpMessage),
    (∀ call ∈ calls, call.1.Up ∧ call.2.Up) → c.reader = some r → r.accept = false → ReadyFor r c.socket msgs →
    c.socket.length ≤ (calls.map fun call => call.1.gain 1).sum → ∃ c', bgpReads goesOn calls c = some c' ∧
      c'.dispatched = c.dispatched ++ (sessionPart goesOn false msgs).map BgpMessage.dispatch
  | [], c, r, msgs, _, hreader, hacc, hready, henough => by
    cases msgs with
    | nil => exact ⟨c, rfl, by simp [sessionPart]⟩
    | cons m ms =>
      -- a part of the message is still to come
      have hlt := hready.rest_lt
      simp only [map_nil, sum_nil] at henough
      omega
  | (t1, t2) :: calls, c, r, msgs, hup, hreader, hacc, hready, henough => by
    obtain ⟨ht1, ht2⟩ := hup _ mem_cons_self
    have hup' : ∀ call ∈ calls, call.1.Up ∧ call.2.Up := fun call hmem => hup call (mem_cons_of_mem _ hmem)
    rw [map_cons, sum_cons] at henough
    rw [bgpReads]
    cases msgs with
    | nil =>
      obtain ⟨hsocket, hdata, hsize, hpkt⟩ := hready
      rw [bgpRead_nil goesOn c hreader ht1 hsocket hdata hsize hpkt]
      rw [Reader.done, if_neg (by rw [hacc]; exact Bool.false_ne_true)]
      exact bgpReads_dispatched calls _ _ [] hup' rfl hacc ⟨hsocket, hdata, hsize, .inr rfl⟩
        (by dsimp only; rw [hsocket]; exact Nat.zero_le _)
    | cons m ms =>
      have hlt := hready.rest_lt
      have hone := t1.gain_le 1
      rcases bgpRead_spec goesOn c hreader ht1 ht2 hready with
        ⟨-, hgo⟩ | ⟨-, r', socket', hgo, hreading, hacc', hlength⟩
      · rw [hgo, bind_some, hacc]
        refine bgpReads_after goesOn false m rfl fun c' hrdr' hsocket' => ?_
        exact bgpReads_dispatched calls c' _ ms hup' hrdr' rfl (hsocket' ▸ readyFor_start false ms)
          (by rw [hsocket']; dsimp only at henough; omega)
      · rw [hgo, bind_some, Reader.done, hacc', hacc]
        exact bgpReads_dispatched calls _ r' (m :: ms) hup' rfl (hacc'.trans hacc) hreading (by dsimp only; omega)

/-- The peer of a new connection on which the messages are sent. -/
def ReadConn.start (accept : Bool) (msgs : List BgpMessage) : ReadConn :=
  { reader := some (.start accept), socket := msgs.flatMap BgpMessage.wire }

/-- The first call gets the whole of the first message: the header with its first reading and the body with
the second. -/
def FirstWhole (msgs : List BgpMessage) (calls : List (ReadTry × ReadTry)) : Prop :=
  ∀ m ∈ msgs.head?, ∀ call ∈ calls.head?,
    call.1.gain bgpHeaderSize = bgpHeaderSize ∧ call.2.gain m.body.length = m.body.length

section
variable {calls : List (ReadTry × ReadTry)} (hup : ∀ call ∈ calls, call.1.Up ∧ call.2.Up)
include hup

/-- An accepted peer is deleted with its first call: nothing is dispatched unless this call completes the
first message. -/
theorem bgpReads_accept {ms : List BgpMessage} {t1 t2 : ReadTry} (ht1 : t1.Up) (ht2 : t2.Up)
    (henough : ((m :: ms).flatMap BgpMessage.wire).length ≤ t1.gain 1 + (calls.map fun call => call.1.gain 1).sum) :
    ∃ c, bgpReads goesOn ((t1, t2) :: calls) (.start true (m :: ms)) = some c ∧
      (c.dispatched = (sessionPart goesOn true (m :: ms)).map BgpMessage.dispatch ↔
        Reading.Completes (.start true) m t1 t2) := by
  rw [bgpReads]
  rcases bgpRead_spec goesOn (.start true (m :: ms)) rfl ht1 ht2 (readyFor_start true (m :: ms)) with
    ⟨hcompletes, hgo⟩ | ⟨hnot, r', socket', hgo, -, hacc, -⟩
  · rw [hgo]
    have hrest : (ms.flatMap BgpMessage.wire).length ≤ (calls.map fun call => call.1.gain 1).sum := by
      have hlt := (Reading.start true m (ms.flatMap BgpMessage.wire)).rest_lt
      have hone := t1.gain_le 1
      rw [flatMap_cons] at henough
      omega
    obtain ⟨c, hrun, hdsp⟩ := @bgpReads_after goesOn
      { ReadConn.start true (m :: ms) with socket := ms.flatMap BgpMessage.wire } true m ms calls rfl
        fun c hreader hsocket =>
        bgpReads_dispatched goesOn calls c _ ms hup hreader rfl (hsocket ▸ readyFor_start false ms) (hsocket ▸ hrest)
    exact ⟨c, hrun, iff_of_true hdsp hcompletes⟩
  · rw [hgo, bind_some, Reader.done, hacc]
    refine ⟨_, bgpReads_of_reader_none goesOn rfl calls, iff_of_false ?_ hnot⟩
    exact (cons_ne_nil _ _).symm

/-- An accepted peer on whose connection nothing is sent dispatches nothing. -/
theorem bgpReads_accept_nil : ∃ c, bgpReads goesOn calls (.start true []) = some c ∧ c.dispatched = [] := by
  cases calls with
  | nil => exact ⟨_, rfl, rfl⟩
  | cons call calls =>
    have hread := @bgpRead_nil goesOn (.start true []) _ call.1 call.2 rfl (hup _ mem_cons_self).1 rfl rfl rfl
      (.inl rfl)
    rw [bgpReads, hread]
    exact ⟨_, bgpReads_of_reader_none goesOn rfl calls, rfl⟩

end

/-- With enough calls, the messages of the session are dispatched in order, each with its type and body,
exactly where the connection is that of a configured peer or the first call gets the whole of the first
message. -/
theorem bgpReads_dispatched_iff (accept : Bool) (msgs : List BgpMessage) (calls : List (ReadTry × ReadTry))
    (hup : ∀ call ∈ calls, call.1.Up ∧ call.2.Up)
    (henough : (msgs.flatMap BgpMessage.wire).length ≤ (calls.map fun call => call.1.gain 1).sum) :
    ∃ c, bgpReads goesOn calls (.start accept msgs) = some c ∧
      (c.dispatched = (sessionPart goesOn accept msgs).map BgpMessage.dispatch ↔
        accept = false ∨ FirstWhole msgs calls) := by
  cases accept with
  | false =>
    obtain ⟨c, hrun, hdsp⟩ :=
      bgpReads_dispatched goesOn calls (.start false msgs) _ msgs hup rfl rfl (readyFor_start false msgs) henough
    exact ⟨c, hrun, iff_of_true hdsp (.inl rfl)⟩
  | true =>
    simp only [Bool.true_eq_false, false_or]
    cases msgs with
    | nil =>
      obtain ⟨c, hrun, hnone⟩ := bgpReads_accept_nil goesOn hup
      refine ⟨c, hrun, iff_of_true hnone ?_⟩
      rintro m ⟨⟩
    | cons m ms =>
      cases calls with
      | nil =>
        have hpos := (Reading.start true m []).part
        rw [map_nil, sum_nil, flatMap_cons, length_append, m.wire_length] at henough
        omega
      | cons call calls =>
        have hwhole : FirstWhole (m :: ms) (call :: calls) ↔ Reading.Completes (.start true) m call.1 call.2 := by
          simp [FirstWhole, Reading.Completes, Reader.start, streamNew, bgpHeaderSize]
        obtain ⟨ht1, ht2⟩ := hup _ mem_cons_self
        rw [hwhole]
        exact bgpReads_accept goesOn (fun call hmem => hup call (mem_cons_of_mem _ hmem)) ht1 ht2 henough

def sampleKeepalive : BgpMessage where
  marker := replicate 16 0xff
  type := .msgKeepalive
  body := []
  marker_length := rfl
  marker_ones _ _ h := (mem_replicate.1 h).2
  size_ok := by decide

/-- An OPEN of AS 2 with a hold time of 180 seconds and no options. -/
def sampleOpen : BgpMessage where
  marker := replicate 16 0xff
  type := .msgOpen
  body := [4, 0, 2, 0, 180, 10, 0, 0, 2, 0]
  marker_length := rfl
  marker_ones _ _ h := (mem_replicate.1 h).2
  size_ok := by decide

end Calls

/-- A configured peer gets an OPEN and a KEEPALIVE octet by octet, with a transient error in front of each. -/
theorem bgpReads_dispatched_octets :
    ∃ c, bgpReads (fun _ => true) (replicate 48 [(.again, .again), (.got 0, .got 0)]).flatten
        (.start false [sampleOpen, sampleKeepalive]) = some c ∧
      c.dispatched = [⟨.msgOpen, 10, [4, 0, 2, 0, 180, 10, 0, 0, 2, 0]⟩, ⟨.msgKeepalive, 0, []⟩] := by
  obtain ⟨c, hrun, hiff⟩ := bgpReads_dispatched_iff (fun _ => true) false [sampleOpen, sampleKeepalive]
    (replicate 48 [(.again, .again), (.got 0, .got 0)]).flatten (by
      intro call hmem
      simp only [mem_flatten, mem_replicate] at hmem
      obtain ⟨_, ⟨-, rfl⟩, hcall⟩ := hmem
      rcases hcall with _ | ⟨_, _ | ⟨_, ⟨⟩⟩⟩ <;> exact ⟨trivial, trivial⟩) (by decide)
  exact ⟨c, hrun, hiff.2 (.inl rfl)⟩

/-- An accepted connection whose OPEN arrives in two pieces is given up with the first one. -/
theorem not_bgpReads_dispatched_accept :
    ∃ (goesOn : Dispatch → Bool) (accept : Bool) (msgs : List BgpMessage) (calls : List (ReadTry × ReadTry))
    (c : ReadConn),
      (∀ call ∈ calls, call.1.Up ∧ call.2.Up) ∧
      (msgs.flatMap BgpMessage.wire).length ≤ (calls.map fun call => call.1.gain 1).sum ∧
      bgpReads goesOn calls (.start accept msgs) = some c ∧
      c.dispatched ≠ (sessionPart goesOn accept msgs).map BgpMessage.dispatch := by
  refine ⟨fun _ => true, true, [sampleOpen], (.got 18, .got 4) :: replicate 29 (.got 9, .again),
    ⟨none, sampleOpen.wire.drop 24, [], none⟩, ?_, ?_, ?_, ?_⟩
  · rintro call (_ | ⟨_, hmem⟩)
    · exact ⟨trivial, trivial⟩
    · rw [(mem_replicate.1 hmem).2]
      exact ⟨trivial, trivial⟩
  · decide
  · rfl
  · decide

end Tarpan.Bgpd
