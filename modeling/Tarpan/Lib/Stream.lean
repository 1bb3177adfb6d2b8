/-
The byte stream of lib/stream.c: a buffer of fixed size with a read and a write position. The
write position is where the data ends, so the bytes written so far are the list `data` and
`endp` is its length. Every function that would run past a bound ends in `assert (0)`; such a
call has no result, which the option type says.
-/
import Tarpan.Base.Outcome
import Tarpan.Base.Words

namespace Tarpan.Lib

open Base List Option

/-- `struct stream`, with the property that `STREAM_VERIFY_SANE` asserts. -/
@[ext] structure Stream where
  getp : Nat
  data : List UInt8
  size : Nat
  getp_le : getp ≤ data.length
  endp_le : data.length ≤ size
  deriving Repr, DecidableEq

namespace Stream

def endp (s : Stream) : Nat := s.data.length
/-- `STREAM_WRITEABLE`, also under the name `STREAM_REMAIN`. -/
def writeable (s : Stream) : Nat := s.size - s.endp
/-- `STREAM_READABLE`. -/
def readable (s : Stream) : Nat := s.endp - s.getp
/-- The bytes not read yet: what `stream_pnt` points at. -/
def unread (s : Stream) : List UInt8 := s.data.drop s.getp

@[simp] theorem unread_length (s : Stream) : s.unread.length = s.readable := by
  simp [unread, readable, endp]

end Stream

def streamNew (size : Nat) : Stream := ⟨0, [], size, Nat.zero_le _, Nat.zero_le _⟩

/-- A buffer that is full with the octets. -/
def Stream.full (octets : List UInt8) : Stream := ⟨0, octets, octets.length, Nat.zero_le _, Nat.le_refl _⟩

/-! ## Writing -/

/-- The common body of the put functions: `bs` goes to the end, or the bound is exceeded. -/
def streamAppend (s : Stream) (bs : List UInt8) : Option Stream :=
  if h : s.data.length + bs.length ≤ s.size then
    some { s with data := s.data ++ bs
                  getp_le := by have := s.getp_le; simp; omega
                  endp_le := by simpa using h }
  else none

def streamPutc (s : Stream) (c : UInt8) : Option Stream := streamAppend s (beBytes 1 c.toNat)
def streamPutw (s : Stream) (w : UInt16) : Option Stream := streamAppend s (beBytes 2 w.toNat)
def streamPutl (s : Stream) (l : UInt32) : Option Stream := streamAppend s (beBytes 4 l.toNat)
/-- `stream_put_ipv4`: the address is held in host order here, so it goes out as a word. -/
def streamPutIpv4 (s : Stream) (l : UInt32) : Option Stream := streamPutl s l

/-- `stream_put`: `CHECK_SIZE` cuts the request down to the room that is left. -/
def streamPut (s : Stream) (src : List UInt8) : Option Stream := streamAppend s (src.take s.writeable)

/-- The common body of `stream_putc_at`, `stream_putw_at`: overwrite inside the written part. -/
def streamOverwrite (s : Stream) (putp : Nat) (bs : List UInt8) : Option Stream :=
  if h : putp + bs.length ≤ s.data.length then
    some { s with data := s.data.take putp ++ bs ++ s.data.drop (putp + bs.length)
                  getp_le := by have := s.getp_le; simp; omega
                  endp_le := by have := s.endp_le; simp; omega }
  else none

def streamPutcAt (s : Stream) (putp : Nat) (c : UInt8) : Option Stream := streamOverwrite s putp (beBytes 1 c.toNat)
def streamPutwAt (s : Stream) (putp : Nat) (w : UInt16) : Option Stream := streamOverwrite s putp (beBytes 2 w.toNat)

/-! ### Writes compose -/

section Writing
variable {s s' : Stream} {bs : List UInt8}

/-- `s'` is `s` with the bytes `bs` at its end. -/
structure Stream.Appended (s : Stream) (bs : List UInt8) (s' : Stream) : Prop where
  data : s'.data = s.data ++ bs
  getp : s'.getp = s.getp
  size : s'.size = s.size

theorem streamAppend_eq_some : streamAppend s bs = some s' ↔ s.Appended bs s' := by
  unfold streamAppend
  constructor
  · intro h
    split at h
    · cases h
      exact ⟨rfl, rfl, rfl⟩
    · cases h
  · rintro ⟨hd, hg, hs⟩
    have hroom := s'.endp_le
    rw [hd, hs, length_append] at hroom
    rw [dif_pos hroom, Option.some.injEq]
    exact Stream.ext hg.symm hd.symm hs.symm

theorem streamAppend_isSome : (streamAppend s bs).isSome ↔ bs.length ≤ s.writeable := by
  have := s.endp_le
  unfold streamAppend Stream.writeable Stream.endp
  split <;> simp <;> omega

theorem streamAppend_eq_none : streamAppend s bs = none ↔ s.writeable < bs.length := by
  rw [← not_isSome_iff_eq_none, streamAppend_isSome, Nat.not_le]

theorem Stream.Appended.writeable (h : s.Appended bs s') : s'.writeable = s.writeable - bs.length := by
  simp only [Stream.writeable, Stream.endp, h.data, h.size, length_append]
  omega

variable {a b : List UInt8}

theorem Stream.Appended.trans {s'' : Stream} (h : s.Appended a s') (h' : s'.Appended b s'') : s.Appended (a ++ b) s'' :=
  ⟨by rw [h'.data, h.data, append_assoc], h'.getp.trans h.getp, h'.size.trans h.size⟩

theorem streamAppend_spec (h : bs.length ≤ s.writeable) : ∃ s', streamAppend s bs = some s' ∧ s.Appended bs s' := by
  obtain ⟨s', hs'⟩ := isSome_iff_exists.1 (streamAppend_isSome.2 h)
  exact ⟨s', hs', streamAppend_eq_some.1 hs'⟩

theorem streamPutc_eq (s : Stream) (c : UInt8) : streamPutc s c = streamAppend s [c] := by
  simp [streamPutc, beBytes]

/-- `stream_put` never fails; what does not fit is cut off. -/
theorem streamPut_spec (s : Stream) (src : List UInt8) :
    ∃ s', streamPut s src = some s' ∧ s.Appended (src.take s.writeable) s' :=
  streamAppend_spec (length_take_le ..)

theorem streamPutwAt_spec {c : List UInt8} (putp : Nat) (w : UInt16) (hdata : s.data = a ++ (b ++ c))
    (ha : a.length = putp) (hb : b.length = 2) :
    ∃ s', streamPutwAt s putp w = some s' ∧ s'.data = a ++ (beBytes 2 w.toNat ++ c) ∧ s'.getp = s.getp ∧
      s'.size = s.size := by
  have hin : putp + (beBytes 2 w.toNat).length ≤ s.data.length := by
    simp only [hdata, length_append, beBytes_length]
    omega
  refine ⟨_, dif_pos hin, ?_, rfl, rfl⟩
  dsimp only
  rw [hdata, beBytes_length, ← ha, ← hb, take_left, ← drop_drop, drop_left, drop_left, append_assoc]

@[simp] theorem streamAppend_nil (s : Stream) : streamAppend s [] = some s := streamAppend_eq_some.2 ⟨by simp, rfl, rfl⟩

/-- Two writes in a row are one write: this is what reduces every encoder to its bytes. -/
theorem streamAppend_append (s : Stream) (a b : List UInt8) :
    streamAppend s (a ++ b) = (streamAppend s a).bind fun s' => streamAppend s' b := by
  cases ha : streamAppend s a with
  | none =>
    rw [streamAppend_eq_none] at ha
    rw [bind_none, streamAppend_eq_none, length_append]
    omega
  | some s' =>
    have happ := streamAppend_eq_some.1 ha
    cases hb : streamAppend s' b with
    | none =>
      have hfull := streamAppend_eq_none.1 hb
      rw [happ.writeable] at hfull
      rw [bind_some, hb, streamAppend_eq_none, length_append]
      omega
    | some s'' =>
      rw [bind_some, hb, streamAppend_eq_some]
      exact happ.trans (streamAppend_eq_some.1 hb)

/-- Writing a list of items one after the other writes their bytes in order. -/
theorem foldlM_streamAppend {α : Type*} (enc : α → List UInt8) (s : Stream) :
    ∀ l : List α, l.foldlM (fun s a => streamAppend s (enc a)) s = streamAppend s (l.flatMap enc)
  | [] => by simp
  | a :: l => by
    rw [foldlM_cons, flatMap_cons, streamAppend_append]
    cases streamAppend s (enc a) with
    | none => rfl
    | some s' => exact foldlM_streamAppend enc s' l

/-- Where there is room for them, `f` puts the bytes `bs` at the end, and returns `g` of the stream that is written. -/
def WritesTo {α : Type} (f : Stream → Option α) (bs : List UInt8) (g : Stream → α) : Prop :=
  ∀ s : Stream, bs.length ≤ s.writeable → ∃ s', f s = some (g s') ∧ s.Appended bs s'

/-- It returns the stream. -/
def Writes (f : Stream → Option Stream) (bs : List UInt8) : Prop :=
  ∀ s : Stream, bs.length ≤ s.writeable → ∃ s', f s = some s' ∧ s.Appended bs s'

section WritesTo
variable {α β : Type} {f : Stream → Option α} {g : Stream → α} {k : α → Option β} {g' : Stream → β}

theorem writesTo_some (g : Stream → α) : WritesTo (fun s => some (g s)) [] g := fun s _ => ⟨s, rfl, by simp, rfl, rfl⟩

theorem WritesTo.bind (hf : WritesTo f a g) (hk : WritesTo (fun s => k (g s)) b g') :
    WritesTo (fun s => f s >>= k) (a ++ b) g' := by
  intro s h
  rw [length_append] at h
  obtain ⟨s', hs', happ⟩ := hf s (by omega)
  obtain ⟨s'', hs'', happ'⟩ := hk s' (by rw [happ.writeable]; omega)
  refine ⟨s'', ?_, happ.trans happ'⟩
  dsimp only
  rw [hs', bind_eq_bind]
  exact hs''

end WritesTo

theorem writes_append (bs : List UInt8) : Writes (streamAppend · bs) bs := fun _ h => streamAppend_spec h
theorem writes_nil : Writes some [] := writesTo_some id

theorem writes_putc (c : UInt8) : Writes (streamPutc · c) [c] := by
  intro s h
  dsimp only
  rw [streamPutc_eq]
  exact streamAppend_spec h

theorem writes_putw (w : UInt16) : Writes (streamPutw · w) (beBytes 2 w.toNat) := writes_append _
theorem writes_putl (l : UInt32) : Writes (streamPutl · l) (beBytes 4 l.toNat) := writes_append _

theorem writes_put (src : List UInt8) : Writes (streamPut · src) src := by
  intro s h
  dsimp only
  rw [streamPut, take_of_length_le h]
  exact streamAppend_spec h

theorem Writes.congr {f g : Stream → Option Stream} (hg : Writes g bs) (h : ∀ s, f s = g s) : Writes f bs := by
  rwa [funext h]

theorem Writes.bind {f g : Stream → Option Stream} (hf : Writes f a) (hg : Writes g b) :
    Writes (fun s => f s >>= g) (a ++ b) := WritesTo.bind hf hg

theorem writes_foldlM {α : Type} {f : Stream → α → Option Stream} {enc : α → List UInt8} : ∀ {l : List α},
    (∀ x ∈ l, Writes (f · x) (enc x)) → Writes (fun s => l.foldlM f s) (l.flatMap enc)
  | [], _ => writes_nil
  | x :: _, h => (h x mem_cons_self).bind (writes_foldlM fun y hy => h y (mem_cons_of_mem x hy))

theorem Writes.bindTo {β : Type} {f : Stream → Option Stream} {k : Stream → Option β} {g : Stream → β} (hf : Writes f a)
    (hk : WritesTo k b g) : WritesTo (fun s => f s >>= k) (a ++ b) g := WritesTo.bind hf hk

/-- A length that is filled in after what follows it: `f` also returns it. -/
theorem writes_lengthAfter {put : Stream → Option Stream} {f : Stream → Option (Stream × Nat)} {head : List UInt8}
    {n : Nat} (hput : Writes put head) (hf : WritesTo f b (·, n)) :
    Writes (fun s => do
      let s ← put s
      let pos := s.endp
      let s ← streamPutw s 0
      let (s, n) ← f s
      streamPutwAt s pos (UInt16.ofNat n)) (head ++ (beBytes 2 n ++ b)) := by
  intro s hroom
  rw [length_append, length_append, beBytes_length] at hroom
  obtain ⟨s1, h1, ha1⟩ := hput s (by omega)
  obtain ⟨s2, h2, ha2⟩ := writes_putw 0 s1 (by rw [ha1.writeable, beBytes_length]; omega)
  obtain ⟨s3, h3, ha3⟩ := hf s2 (by rw [ha2.writeable, ha1.writeable, beBytes_length]; omega)
  have hdata : s3.data = (s.data ++ head) ++ (beBytes 2 (0 : UInt16).toNat ++ b) := by
    rw [ha3.data, ha2.data, ha1.data, append_assoc]
  have hpos : (s.data ++ head).length = s1.endp := by rw [Stream.endp, ha1.data]
  obtain ⟨s4, h4, hdata4, hgetp, hsize⟩ := streamPutwAt_spec s1.endp (UInt16.ofNat n) hdata hpos (beBytes_length ..)
  rw [beBytes_ofNat, append_assoc] at hdata4
  refine ⟨s4, ?_, hdata4, ?_, ?_⟩
  · simp only [h1, h2, h3, bind_eq_bind, bind_some]
    exact h4
  · rw [hgetp, ha3.getp, ha2.getp, ha1.getp]
  · rw [hsize, ha3.size, ha2.size, ha1.size]

end Writing

/-! ## Reading -/

section
variable (s : Stream)

/-- The stream with the read position `n` bytes on, at most at the end of the data. -/
def Stream.advance (n : Nat) : Stream :=
  { s with getp := min (s.getp + n) s.data.length, getp_le := Nat.min_le_right .. }

def streamForwardGetp (n : Nat) : Option Stream := if s.getp + n ≤ s.endp then some (s.advance n) else none

def streamSetGetp (pos : Nat) : Option Stream :=
  if h : pos ≤ s.data.length then some { s with getp := pos, getp_le := h } else none

/-- `stream_get`: the next `n` bytes. -/
def streamGet (n : Nat) : Option (List UInt8 × Stream) := (streamForwardGetp s n).map fun s' => (s.unread.take n, s')
def streamGetc : Option (UInt8 × Stream) := (streamGet s 1).map fun (bs, s') => (UInt8.ofNat (beVal bs), s')
def streamGetw : Option (UInt16 × Stream) := (streamGet s 2).map fun (bs, s') => (UInt16.ofNat (beVal bs), s')
def streamGetl : Option (UInt32 × Stream) := (streamGet s 4).map fun (bs, s') => (UInt32.ofNat (beVal bs), s')
/-- `stream_get_ipv4`, in host order. -/
def streamGetIpv4 : Option (UInt32 × Stream) := streamGetl s

/-- `stream_getc_from` and `stream_getw_from`: the position does not move. -/
def streamGetcFrom (pos : Nat) : Option UInt8 :=
  if pos + 1 ≤ s.endp then some (UInt8.ofNat (beVal ((s.data.drop pos).take 1))) else none
def streamGetwFrom (pos : Nat) : Option UInt16 :=
  if pos + 2 ≤ s.endp then some (UInt16.ofNat (beVal ((s.data.drop pos).take 2))) else none

def streamReset : Stream := streamNew s.size

end

/-! ### Reads consume the unread bytes -/

section Reading
variable {s : Stream} {n pos : Nat}

@[simp] theorem unread_advance (s : Stream) (n : Nat) : (s.advance n).unread = s.unread.drop n := by
  simp only [Stream.unread, Stream.advance, drop_drop]
  rcases Nat.le_total (s.getp + n) s.data.length with h | h
  · rw [Nat.min_eq_left h]
  · rw [Nat.min_eq_right h, drop_length, drop_eq_nil_of_le h]

@[simp] theorem advance_zero (s : Stream) : s.advance 0 = s := Stream.ext (by simp [Stream.advance, s.getp_le]) rfl rfl

@[simp] theorem advance_advance (s : Stream) (m n : Nat) : (s.advance m).advance n = s.advance (m + n) :=
  Stream.ext (by simp only [Stream.advance]; omega) rfl rfl

theorem streamForwardGetp_eq (s : Stream) (n : Nat) :
    streamForwardGetp s n = if n ≤ s.readable then some (s.advance n) else none := by
  have := s.getp_le
  unfold streamForwardGetp Stream.readable Stream.endp
  by_cases h : s.getp + n ≤ s.data.length
  · rw [if_pos h, if_pos (by omega)]
  · rw [if_neg h, if_neg (by omega)]

theorem streamGet_of_le (h : n ≤ s.readable) : streamGet s n = some (s.unread.take n, s.advance n) := by
  rw [streamGet, streamForwardGetp_eq, if_pos h]
  rfl

variable {rest bs a : List UInt8} {w : UInt16} {c : UInt8}

theorem le_readable (h : s.unread = bs ++ rest) : bs.length ≤ s.readable := by
  rw [← s.unread_length, h, length_append]
  exact Nat.le_add_right ..

/-- What follows the octets `b` at `m`. -/
theorem unread_after {b : List UInt8} {m : Nat} (h : (s.advance m).unread = b ++ rest) (hn : m + b.length = n) :
    (s.advance n).unread = rest := by
  rw [← hn, ← advance_advance, unread_advance, h, drop_left]

/-- What has just been put in front of the reader is what it gets. -/
theorem streamGet_append (h : s.unread = bs ++ rest) : streamGet s bs.length = some (bs, s.advance bs.length) := by
  rw [streamGet_of_le (le_readable h), h, take_left]

theorem streamGetc_of_unread (h : s.unread = c :: rest) : streamGetc s = some (c, s.advance 1) := by
  have hget := streamGet_append (show s.unread = [c] ++ rest from h)
  rw [length_singleton] at hget
  simp [streamGetc, hget, beVal]

theorem streamGetw_of_unread (h : s.unread = beBytes 2 w.toNat ++ rest) : streamGetw s = some (w, s.advance 2) := by
  have hget := streamGet_append h
  rw [beBytes_length] at hget
  have hw : w.toNat < 256 ^ 2 := w.toNat_lt
  simp [streamGetw, hget, beVal_beBytes hw]

theorem streamGetl_of_unread {l : UInt32}
    (h : s.unread = beBytes 4 l.toNat ++ rest) : streamGetl s = some (l, s.advance 4) := by
  have hget := streamGet_append h
  rw [beBytes_length] at hget
  have hl : l.toNat < 256 ^ 4 := l.toNat_lt
  simp [streamGetl, hget, beVal_beBytes hl]

theorem streamGetcFrom_of_data (h : s.data = a ++ c :: rest) (ha : a.length = pos) : streamGetcFrom s pos = some c := by
  rw [streamGetcFrom, if_pos (by simp [Stream.endp, h, ha]), h, drop_left' ha]
  simp [beVal]

theorem streamGetwFrom_of_data
    (h : s.data = a ++ (beBytes 2 w.toNat ++ rest)) (ha : a.length = pos) : streamGetwFrom s pos = some w := by
  have hw : w.toNat < 256 ^ 2 := w.toNat_lt
  rw [streamGetwFrom, if_pos (by simp [Stream.endp, h, ha]), h, drop_left' ha,
    take_left' (beBytes_length _ _), beVal_beBytes hw, UInt16.ofNat_toNat]

theorem advance_getp (h : n ≤ s.readable) : (s.advance n).getp = s.getp + n := by
  have := s.getp_le
  unfold Stream.readable Stream.endp at h
  unfold Stream.advance
  dsimp only
  omega

end Reading

/-! ## Reading from a descriptor -/

/-- What `read` is about to do: nothing is there yet, there are octets (one more than the number at
most), the other side has closed, or it fails. -/
inductive ReadTry where
  | again | got (more : Nat) | closed | error
  deriving DecidableEq

/-- The result of `stream_read_try`. -/
inductive ReadRet where
  | transient | fatal | octets (n : Nat)
  deriving DecidableEq

/-- `stream_read_try`; `socket` are the octets that were sent and not read yet. -/
def streamReadTry (s : Stream) (socket : List UInt8) (size : Nat) (t : ReadTry) :
    Option (ReadRet × Stream × List UInt8) :=
  if s.writeable < size then some (.fatal, s, socket)
  else match t with
  | .again => some (.transient, s, socket)
  | .error => some (.fatal, s, socket)
  | .closed => some (.octets 0, s, socket)
  | .got more =>
    if socket = [] then some (.transient, s, socket)
    else
      let bs := socket.take (min (more + 1) size)
      (streamAppend s bs).map fun s' => (.octets bs.length, s', socket.drop bs.length)

/-- The try is one on a connection that stays up. -/
def ReadTry.Up : ReadTry → Prop
  | .again => True
  | .got _ => True
  | .closed => False
  | .error => False

/-- The octets that a try gains where `size` are wanted and there are that many. -/
def ReadTry.gain (t : ReadTry) (size : Nat) : Nat :=
  match t with
  | .got more => min (more + 1) size
  | _ => 0

theorem ReadTry.gain_got (more size : Nat) : (ReadTry.got more).gain size = min (more + 1) size := rfl

theorem ReadTry.gain_le (t : ReadTry) (size : Nat) : t.gain size ≤ size := by
  cases t <;> simp [ReadTry.gain]

variable {size : Nat}

theorem ReadTry.gain_one_le (t : ReadTry) (h : 0 < size) : t.gain 1 ≤ t.gain size := by
  cases t with
  | got more =>
    simp only [ReadTry.gain]
    omega
  | _ => exact Nat.le_refl 0

section
variable {s : Stream} {t : ReadTry} (ht : t.Up) (hroom : size ≤ s.writeable)
include ht hroom

theorem streamReadTry_nil : streamReadTry s [] size t = some (.transient, s, []) := by
  unfold streamReadTry
  rw [if_neg (Nat.not_lt.2 hroom)]
  cases t with
  | again => rfl
  | got more => rfl
  | closed => cases ht
  | error => cases ht

/-- Where the wanted octets are there, the stream gets what the try gains. -/
theorem streamReadTry_spec {socket : List UInt8} (hpos : 0 < size) (hsocket : size ≤ socket.length) :
    ∃ s', streamReadTry s socket size t =
        some (if t.gain size = 0 then .transient else .octets (t.gain size), s', socket.drop (t.gain size)) ∧
      s.Appended (socket.take (t.gain size)) s' := by
  unfold streamReadTry
  rw [if_neg (Nat.not_lt.2 hroom)]
  cases t with
  | closed => cases ht
  | error => cases ht
  | again => exact ⟨s, rfl, (append_nil _).symm, rfl, rfl⟩
  | got more =>
    have hne : socket ≠ [] := ne_nil_of_length_pos (hpos.trans_le hsocket)
    have hlen : (socket.take (min (more + 1) size)).length = min (more + 1) size := by
      rw [length_take]
      omega
    obtain ⟨s', happ, hs'⟩ := @streamAppend_spec s (socket.take (min (more + 1) size)) (by omega)
    refine ⟨s', ?_, hs'⟩
    rw [ReadTry.gain_got, if_neg (show min (more + 1) size ≠ 0 by omega)]
    dsimp only
    rw [if_neg hne, happ, map_some, hlen]

end

/-! ## Readers

A reader that gets a value out of the octets that were written for it can be followed by another one, and repeated for a
list. -/

/-- A function that reads from a stream, with no result where it would run past the end. -/
abbrev Reader := StateT Stream Option

namespace Reader

variable {α β : Type} {f : Reader α} {a : α}

def getc : Reader UInt8 := streamGetc
def getw : Reader UInt16 := streamGetw
def getl : Reader UInt32 := streamGetl
/-- The next `n` octets. -/
def get (n : Nat) : Reader (List UInt8) := (streamGet · n)
def forward (n : Nat) : Reader Unit := fun s => (streamForwardGetp s n).map ((), ·)

/-- The body of a loop that runs `n` times. -/
def times : Nat → (α → Reader α) → α → Reader α
  | 0, _, a => pure a
  | n + 1, f, a => do
    let a ← f a
    times n f a

/-- Where `bs` comes next, `f` reads it and returns `a`. -/
def Reads (f : Reader α) (bs : List UInt8) (a : α) : Prop :=
  ∀ (s : Stream) (rest : List UInt8), s.unread = bs ++ rest → f s = some (a, s.advance bs.length)

theorem reads_getc (c : UInt8) : Reads getc [c] c := fun _ _ h => streamGetc_of_unread h

theorem reads_getw (w : UInt16) : Reads getw (beBytes 2 w.toNat) w := fun s rest h => by
  exact streamGetw_of_unread h

theorem reads_getl (l : UInt32) : Reads getl (beBytes 4 l.toNat) l := fun s rest h => by
  exact streamGetl_of_unread h

theorem reads_get (bs : List UInt8) {n : Nat} (h : bs.length = n) : Reads (get n) bs bs := fun s rest hs => by
  subst h
  exact streamGet_append hs

theorem reads_pure (a : α) : Reads (pure a) [] a := fun s _ _ => by
  rw [length_nil, advance_zero]
  rfl

theorem Reads.bind {g : α → Reader β} {b : β} {bs bs' : List UInt8} (hf : Reads f bs a)
    (hg : Reads (g a) bs' b) : Reads (f >>= g) (bs ++ bs') b := by
  intro s rest hs
  rw [append_assoc] at hs
  have hnext : (s.advance bs.length).unread = bs' ++ rest := by rw [unread_advance, hs, drop_left]
  show (f s >>= fun r => g r.1 r.2) = _
  rw [hf s _ hs, bind_eq_bind, bind_some, hg _ rest hnext, advance_advance, length_append]

theorem Reads.map {bs : List UInt8} (hf : Reads f bs a) (g : α → β) : Reads (f >>= fun a => pure (g a)) bs (g a) := by
  have := hf.bind (g := fun a => pure (g a)) (reads_pure (g a))
  rwa [append_nil] at this

theorem reads_times {γ : Type} {f : α → Reader α} {enc : γ → List UInt8} {next : α → γ → α} : ∀ {l : List γ} (a : α),
    (∀ x ∈ l, ∀ a, Reads (f a) (enc x) (next a x)) → Reads (times l.length f a) (l.flatMap enc) (l.foldl next a)
  | [], a, _ => reads_pure a
  | x :: l, a, h => by
    exact (h x mem_cons_self a).bind (reads_times _ fun y hy => h y (mem_cons_of_mem x hy))

end Reader

end Tarpan.Lib
