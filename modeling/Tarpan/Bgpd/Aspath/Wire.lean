/-
The wire form of AS paths: `aspath_put` writes a path to a stream, `assegments_parse` reads it
back. A segment goes out in blocks of at most 255 numbers; the octets written for a path in normal
form and the blocks read from them are described here, for both widths of AS numbers.
-/
import Mathlib.Algebra.BigOperators.Group.List.Basic
import Mathlib.Algebra.Group.Action.Defs
import Tarpan.Bgpd.Aspath.Basic
import Tarpan.Lib.Stream

namespace Tarpan.Bgpd

open Base Lib List Option UInt8

def asHeaderSize : Nat := 2

/-- `ASSEGMENT_SIZE`: the octets of a segment of `n` numbers. -/
def assegmentSize (n : Nat) (use32bit : Bool) : Nat := asHeaderSize + n * (if use32bit then 4 else 2)

/-! ## The writer -/

section
variable (use32bit : Bool)

/-- The body of the loop in `assegment_data_put`. -/
def asnPut (s : Stream) (as : UInt32) : Option Stream :=
  if use32bit then streamPutl s as
  else if as ≤ bgpAsMax then streamPutw s as.toUInt16
  else streamPutw s bgpAsTrans

/-- `assegment_data_put` on the first `num` numbers at `as`: its assertion, then its loop. -/
def assegmentDataPut (s : Stream) (as : List UInt32) (use32bit : Bool) : Option Stream :=
  if as.length ≤ asSegmentMax then as.foldlM (asnPut use32bit) s else none

/-- `assegment_header_put`; also gives the position of the length octet. -/
def assegmentHeaderPut (s : Stream) (type : AsSegType) (length : Nat) : Option (Stream × Nat) :=
  if length ≤ asSegmentMax then do
    let s ← streamPutc s type.code
    let s' ← streamPutc s (ofNat length)
    return (s', s.endp)
  else none

/-- The loop of `aspath_put` that splits up an overlength segment. The data put in each turn are
the first 255 numbers of the segment, and `written` is counted again in each turn's `bytes`. -/
def aspathPutSplit (seg : Assegment) (use32bit : Bool) (s : Stream) (written bytes : Nat) :
    Option (Stream × Nat × Nat) :=
  if seg.as.length - written > asSegmentMax then do
    let (s, _) ← assegmentHeaderPut s seg.type asSegmentMax
    let s ← assegmentDataPut s (seg.as.take asSegmentMax) use32bit
    aspathPutSplit seg use32bit s (written + asSegmentMax) (bytes + assegmentSize (written + asSegmentMax) use32bit)
  else some (s, written, bytes)
termination_by seg.as.length - written
decreasing_by simp only [asSegmentMax] at *; omega

/-- One turn of the loop of `aspath_put` that packs a following segment into the last header. -/
def aspathPutPack (seg : Assegment) (use32bit : Bool) (lenp written : Nat) (s : Stream) (next : Assegment) :
    Option Stream := do
  let s ← assegmentDataPut s next.as use32bit
  streamPutcAt s lenp (ofNat (seg.as.length - written + next.as.length))

/-- The main loop of `aspath_put`. The packing loop runs over the packable segments that follow
`seg` and leaves `next` at the first that is not. -/
def aspathPutLoop (use32bit : Bool) (s : Stream) (as : Aspath) (bytes : Nat) : Option (Stream × Nat) :=
  match as with
  | [] => some (s, bytes)
  | seg :: next =>
    if assegmentSize seg.as.length use32bit ≤ s.writeable then do
      let (s, written, bytes) ← aspathPutSplit seg use32bit s 0 bytes
      let (s, lenp) ← assegmentHeaderPut s seg.type (seg.as.length - written)
      let s ← assegmentDataPut s (seg.as.drop written) use32bit
      let packed := next.takeWhile (segmentsPackable seg ·)
      let s ← packed.foldlM (aspathPutPack seg use32bit lenp written) s
      aspathPutLoop use32bit s (next.dropWhile (segmentsPackable seg ·))
        (bytes + assegmentSize (seg.as.length - written + assegmentCountAsns packed) use32bit)
    else some (s, bytes)
termination_by as.length
decreasing_by exact Nat.lt_succ_of_le (dropWhile_suffix _).length_le

/-- `aspath_put`: the stream after the write, and the number of octets it says it wrote. -/
def aspathPut (s : Stream) (as : Aspath) (use32bit : Bool) : Option (Stream × Nat) :=
  match as with
  | [] => some (s, 0)
  | seg :: _ => if seg.as.length = 0 then some (s, 0) else aspathPutLoop use32bit s as 0

/-! ## The reader -/

def asnGet (s : Stream) : Option (UInt32 × Stream) :=
  if use32bit then streamGetl s else (streamGetw s).map fun (w, s) => (w.toUInt32, s)

/-- The `num` numbers of a segment. -/
def asnsGet (use32bit : Bool) : Nat → Stream → Option (List UInt32 × Stream)
  | 0, s => some ([], s)
  | num + 1, s => do
    let (as, s) ← asnGet use32bit s
    let (rest, s) ← asnsGet use32bit num s
    return (as :: rest, s)

/-- The loop of `assegments_parse`, with the chain it appends to its head. -/
def assegmentsParseLoop (use32bit : Bool) (length : Nat) (s : Stream) (bytes : Nat) : Option (Option Aspath × Stream) :=
  if bytes < length then
    if length - bytes ≤ asHeaderSize then some (none, s)
    else do
      let (type, s) ← streamGetc s
      let (len, s) ← streamGetc s
      let segSize := assegmentSize len.toNat use32bit
      if bytes + segSize > length ∨ len = 0 then return (none, s)
      match AsSegType.ofCode type with
      | none => return (none, s)
      | some type =>
        let (as, s) ← asnsGet use32bit len.toNat s
        let (rest, s) ← assegmentsParseLoop use32bit length s (bytes + segSize)
        return (rest.map (assegmentWith type as :: ·), s)
  else some (some [], s)
termination_by length - bytes
decreasing_by simp only [assegmentSize, asHeaderSize]; omega

/-- `assegments_parse`: the normalised chain, or nothing where the source returns -1. -/
def assegmentsParse (s : Stream) (length : Nat) (use32bit : Bool) : Option (Option Aspath × Stream) :=
  if length = 0 then some (some [], s)
  else if s.readable < length ∨ s.readable < asHeaderSize ∨ length % 2 ≠ 0 then some (none, s)
  else (assegmentsParseLoop use32bit length s 0).map fun (r, s) => (r.map assegmentNormalise, s)

/-! ## What the writer writes -/

/-- The number a reader gets back for `as`. -/
def wireAsn (as : UInt32) : UInt32 := if use32bit then as else if as ≤ bgpAsMax then as else bgpAsTrans.toUInt32

def asnBytes (as : UInt32) : List UInt8 := if use32bit then beBytes 4 as.toNat else beBytes 2 (wireAsn false as).toNat

def segmentBytes (seg : Assegment) : List UInt8 :=
  seg.type.code :: ofNat seg.as.length :: seg.as.flatMap (asnBytes use32bit)

@[simp] theorem asnBytes_length (as : UInt32) : (asnBytes use32bit as).length = if use32bit then 4 else 2 := by
  cases use32bit <;> simp [asnBytes]

@[simp] theorem segmentBytes_length (seg : Assegment) :
    (segmentBytes use32bit seg).length = assegmentSize seg.as.length use32bit := by
  simp only [segmentBytes, length_cons, length_flatMap, asnBytes_length, map_const',
    sum_replicate, smul_eq_mul, assegmentSize, asHeaderSize]
  omega

theorem asnPut_eq (s : Stream) (as : UInt32) : asnPut use32bit s as = streamAppend s (asnBytes use32bit as) := by
  cases use32bit with
  | true => rfl
  | false =>
    simp only [asnPut, asnBytes, wireAsn, Bool.false_eq_true, if_false]
    split_ifs with h
    · have hle : as.toNat ≤ 65535 := h
      simp only [streamPutw, UInt32.toNat_toUInt16, Nat.mod_eq_of_lt (show as.toNat < 2 ^ 16 by omega)]
    · rfl

end

theorem assegmentDataPut_eq {as : List UInt32} (h : as.length ≤ asSegmentMax) (s : Stream) (use32bit : Bool) :
    assegmentDataPut s as use32bit = streamAppend s (as.flatMap (asnBytes use32bit)) := by
  rw [assegmentDataPut, if_pos h, ← foldlM_streamAppend]
  congr
  funext s as
  exact asnPut_eq use32bit s as

variable (seg : Assegment)

theorem segmentPut_eq (h : seg.as.length ≤ asSegmentMax) (s : Stream) (use32bit : Bool)
    {β : Type} (k : Stream → Nat → Option β) : ((assegmentHeaderPut s seg.type seg.as.length).bind fun (s', lenp) =>
      (assegmentDataPut s' seg.as use32bit).bind fun s' => k s' lenp) =
    (streamAppend s (segmentBytes use32bit seg)).bind fun s' => k s' (s.endp + 1) := by
  have happ : segmentBytes use32bit seg =
      [seg.type.code] ++ ([ofNat seg.as.length] ++ seg.as.flatMap (asnBytes use32bit)) := rfl
  rw [assegmentHeaderPut, if_pos h, happ, streamAppend_append]
  simp only [streamPutc_eq, assegmentDataPut_eq h, bind_eq_bind]
  cases h1 : streamAppend s [seg.type.code] with
  | none => rfl
  | some s1 =>
    have hend : s1.endp = s.endp + 1 := by simp [Stream.endp, (streamAppend_eq_some.1 h1).data]
    simp only [bind_some, streamAppend_append]
    cases h2 : streamAppend s1 [ofNat seg.as.length] with
    | none => rfl
    | some s2 => simp [hend]

/-! ## Splitting -/

/-- The number of full blocks split off a segment of `n` numbers. -/
def splitTurns (n : Nat) : Nat := (n - 1) / asSegmentMax

/-- The numbers as they go out: each block split off repeats the first 255 of them. -/
def splitBlock (seg : Assegment) : Assegment := assegmentWith seg.type (seg.as.take asSegmentMax)
def splitLast (seg : Assegment) : Assegment :=
  assegmentWith seg.type (seg.as.drop (asSegmentMax * splitTurns seg.as.length))

/-- The segments on the wire for `seg`. -/
def splitSegment (seg : Assegment) : Aspath :=
  List.replicate (splitTurns seg.as.length) (splitBlock seg) ++ [splitLast seg]

/-- What the splitting loop adds to `bytes` in so many turns from `written` on. -/
def splitCount (use32bit : Bool) : Nat → Nat → Nat
  | 0, _ => 0
  | turns + 1, written =>
    assegmentSize (written + asSegmentMax) use32bit + splitCount use32bit turns (written + asSegmentMax)

section Splitting
variable (seg : Assegment) {n : Nat}

theorem splitTurns_spec (h : 0 < n) :
    asSegmentMax * splitTurns n < n ∧ n ≤ asSegmentMax * splitTurns n + asSegmentMax := by
  simp only [splitTurns, asSegmentMax]
  omega

theorem splitTurns_eq_zero (h : n ≤ asSegmentMax) : splitTurns n = 0 := by
  simp only [splitTurns, asSegmentMax] at *
  omega

@[simp] theorem splitBlock_as : (splitBlock seg).as = seg.as.take asSegmentMax :=
  assegmentWith_as ((length_take_le' ..).trans_lt seg.length_lt)

@[simp] theorem splitLast_as : (splitLast seg).as = seg.as.drop (asSegmentMax * splitTurns seg.as.length) :=
  assegmentWith_as (by rw [length_drop]; exact (Nat.sub_le ..).trans_lt seg.length_lt)

@[simp] theorem splitBlock_type : (splitBlock seg).type = seg.type := rfl
@[simp] theorem splitLast_type : (splitLast seg).type = seg.type := rfl

variable {seg}

theorem splitSegment_of_le (h : seg.as.length ≤ asSegmentMax) : splitSegment seg = [seg] := by
  have hlast : splitLast seg = seg := Assegment.eq_of rfl (by simp [splitTurns_eq_zero h])
  simp [splitSegment, splitTurns_eq_zero h, hlast]

theorem mem_splitSegment {x : Assegment} (hne : seg.as ≠ []) (h : x ∈ splitSegment seg) :
    x.type = seg.type ∧ x.as ≠ [] ∧ x.as.length ≤ asSegmentMax := by
  have hpos : 0 < seg.as.length := length_pos_iff.2 hne
  obtain ⟨hlo, hhi⟩ := splitTurns_spec hpos
  rcases mem_append.1 h with h | h
  · obtain ⟨-, rfl⟩ := mem_replicate.1 h
    refine ⟨rfl, ?_, by simp⟩
    rw [← length_pos_iff, splitBlock_as, length_take]
    omega
  · obtain rfl := mem_singleton.1 h
    refine ⟨rfl, ?_, ?_⟩
    · rw [← length_pos_iff, splitLast_as, length_drop]
      omega
    · rw [splitLast_as, length_drop]
      omega

/-- The splitting loop writes its blocks and leaves at most 255 numbers for the last header. -/
theorem aspathPutSplit_eq (use32bit : Bool) : ∀ (turns written bytes : Nat) (s : Stream),
    written + asSegmentMax * turns < seg.as.length → seg.as.length ≤ written + asSegmentMax * turns + asSegmentMax →
    aspathPutSplit seg use32bit s written bytes =
      (streamAppend s ((List.replicate turns (splitBlock seg)).flatMap (segmentBytes use32bit))).map
        fun s' => (s', written + asSegmentMax * turns, bytes + splitCount use32bit turns written)
  | 0, written, bytes, s, _, hhi => by
    rw [aspathPutSplit, if_neg (by omega)]
    simp [splitCount]
  | turns + 1, written, bytes, s, hlo, hhi => by
    rw [Nat.mul_add_one] at hlo hhi
    have htake : (seg.as.take asSegmentMax).length = asSegmentMax := by
      rw [length_take]
      omega
    have hput := segmentPut_eq (splitBlock seg) (by simp) s use32bit
      fun s' _ => aspathPutSplit seg use32bit s' (written + asSegmentMax)
        (bytes + assegmentSize (written + asSegmentMax) use32bit)
    simp only [splitBlock_as, splitBlock_type, htake] at hput
    rw [aspathPutSplit, if_pos (by omega)]
    simp only [bind_eq_bind]
    rw [hput, replicate_succ, flatMap_cons, streamAppend_append]
    cases streamAppend s (segmentBytes use32bit (splitBlock seg)) with
    | none => rfl
    | some s' =>
      simp only [bind_some]
      rw [aspathPutSplit_eq use32bit turns _ _ _ (by omega) (by omega)]
      simp [splitCount, Nat.mul_add_one, Nat.add_assoc, Nat.add_comm asSegmentMax]

end Splitting

/-! ## The writer on a normal form -/

def pathBytes (use32bit : Bool) (p : Aspath) : List UInt8 := (p.flatMap splitSegment).flatMap (segmentBytes use32bit)

/-- The room a path takes: a header for every started block of 255 numbers, and the numbers. -/
def pathRoom (use32bit : Bool) (p : Aspath) : Nat :=
  (p.map fun seg =>
    asHeaderSize * ((seg.as.length + 254) / 255) + seg.as.length * (if use32bit then 4 else 2)).sum

/-- The count that `aspath_put` returns. -/
def putCount (use32bit : Bool) (p : Aspath) : Nat :=
  (p.map fun seg => splitCount use32bit (splitTurns seg.as.length) 0 +
    assegmentSize (seg.as.length - asSegmentMax * splitTurns seg.as.length) use32bit).sum

section Writer
variable {use32bit : Bool} {p : Aspath} {s : Stream}

theorem splitSegment_bytes : (splitSegment seg).flatMap (segmentBytes use32bit) =
      (List.replicate (splitTurns seg.as.length) (splitBlock seg)).flatMap (segmentBytes use32bit) ++
        segmentBytes use32bit (splitLast seg) := by
  simp [splitSegment]

theorem pathBytes_cons : pathBytes use32bit (seg :: p) =
      (splitSegment seg).flatMap (segmentBytes use32bit) ++ pathBytes use32bit p := by
  simp [pathBytes]

theorem splitSegment_bytes_length (use32bit : Bool) {seg : Assegment} (hne : seg.as ≠ []) :
    ((splitSegment seg).flatMap (segmentBytes use32bit)).length =
      splitTurns seg.as.length * assegmentSize asSegmentMax use32bit +
        assegmentSize (seg.as.length - asSegmentMax * splitTurns seg.as.length) use32bit := by
  have hpos : 0 < seg.as.length := length_pos_iff.2 hne
  obtain ⟨hlo, -⟩ := splitTurns_spec hpos
  have hblocks : splitTurns seg.as.length * assegmentSize (splitBlock seg).as.length use32bit =
      splitTurns seg.as.length * assegmentSize asSegmentMax use32bit := by
    -- with no block split off it does not matter how long the first one would be
    rcases Nat.eq_zero_or_pos (splitTurns seg.as.length) with h0 | h1
    · rw [h0, Nat.zero_mul, Nat.zero_mul]
    · have hfull : asSegmentMax ≤ seg.as.length := (Nat.le_mul_of_pos_right _ h1).trans hlo.le
      rw [splitBlock_as, length_take, Nat.min_eq_left hfull]
  rw [splitSegment_bytes, length_append, length_flatMap, map_replicate, sum_replicate,
    smul_eq_mul, segmentBytes_length, segmentBytes_length, hblocks, splitLast_as, length_drop]

theorem pathBytes_length (use32bit : Bool) (hp : ∀ seg ∈ p, seg.as ≠ []) :
    (pathBytes use32bit p).length = pathRoom use32bit p := by
  induction p with
  | nil => rfl
  | cons seg p ih =>
    have hne := hp seg (by simp)
    have hpos : 0 < seg.as.length := length_pos_iff.2 hne
    have hturns : (seg.as.length + 254) / 255 = splitTurns seg.as.length + 1 := by
      simp only [splitTurns, asSegmentMax]
      omega
    obtain ⟨hlo, -⟩ := splitTurns_spec hpos
    rw [pathBytes_cons, length_append, ih fun x hx => hp x (by simp [hx]), splitSegment_bytes_length use32bit hne]
    simp only [pathRoom, map_cons, assegmentSize, asHeaderSize, asSegmentMax] at *
    cases use32bit <;> simp <;> omega

/-- Each turn of the main loop writes one segment in blocks; nothing is packed on a normal form. -/
theorem aspathPutLoop_eq (hp : Normalised p) (hroom : (pathBytes use32bit p).length ≤ s.writeable) (bytes : Nat) :
    aspathPutLoop use32bit s p bytes =
      (streamAppend s (pathBytes use32bit p)).map fun s' => (s', bytes + putCount use32bit p) := by
  induction p generalizing s bytes with
  | nil => simp [aspathPutLoop, pathBytes, putCount]
  | cons seg next ih =>
    obtain ⟨hseg, hhead, hnext⟩ := normalised_cons.1 hp
    have hpos : 0 < seg.as.length := length_pos_iff.2 hseg.nonempty
    obtain ⟨hlo, hhi⟩ := splitTurns_spec hpos
    have hmax : asSegmentMax = 255 := rfl
    have hlen := splitSegment_bytes_length use32bit hseg.nonempty
    rw [pathBytes_cons, length_append] at hroom
    have hfits : assegmentSize seg.as.length use32bit ≤ s.writeable := by
      simp only [assegmentSize, asHeaderSize, hmax] at hlen hlo ⊢
      cases use32bit <;> simp at * <;> omega
    have hpack : ∀ y ∈ next.head?, ¬ segmentsPackable seg y := fun y hy h => hhead y hy h.1
    have htake : next.takeWhile (segmentsPackable seg ·) = [] ∧
        next.dropWhile (segmentsPackable seg ·) = next := by
      cases next with
      | nil => exact ⟨rfl, rfl⟩
      | cons y next => simp [hpack y rfl]
    have hput := fun s1 => segmentPut_eq (splitLast seg) (by rw [splitLast_as, length_drop]; omega)
      s1 use32bit fun s' _ => aspathPutLoop use32bit s' next
        (bytes + splitCount use32bit (splitTurns seg.as.length) 0 +
          assegmentSize (seg.as.length - asSegmentMax * splitTurns seg.as.length) use32bit)
    simp only [splitLast_as, splitLast_type, length_drop] at hput
    rw [aspathPutLoop, if_pos hfits, aspathPutSplit_eq use32bit (splitTurns seg.as.length) 0 bytes s
      (by omega) (by omega)]
    simp only [bind_eq_bind, bind_map, Function.comp_def, htake.1, htake.2, foldlM_nil, Option.pure_def,
      assegmentCountAsns_nil, Nat.zero_add, Nat.add_zero]
    rw [pathBytes_cons, splitSegment_bytes, append_assoc, streamAppend_append]
    cases h1 : streamAppend s _ with
    | none => rfl
    | some s1 =>
      simp only [bind_some]
      rw [hput, streamAppend_append]
      cases h2 : streamAppend s1 _ with
      | none => rfl
      | some s2 =>
        have hroom' : (pathBytes use32bit next).length ≤ s2.writeable := by
          rw [(streamAppend_eq_some.1 h2).writeable, (streamAppend_eq_some.1 h1).writeable]
          rw [splitSegment_bytes, length_append] at hroom
          omega
        simp only [bind_some]
        rw [ih hnext hroom']
        simp [putCount, Nat.add_assoc]

theorem aspathPut_eq (hp : Normalised p) (hroom : pathRoom use32bit p ≤ s.writeable) : aspathPut s p use32bit =
      (streamAppend s (pathBytes use32bit p)).map fun s' => (s', putCount use32bit p) := by
  cases p with
  | nil => simp [aspathPut, pathBytes, putCount]
  | cons seg p =>
    have hne := (normalised_cons.1 hp).1.nonempty
    rw [← pathBytes_length use32bit fun x hx => (hp.segs x hx).nonempty] at hroom
    rw [aspathPut, if_neg (by simpa using hne), aspathPutLoop_eq hp hroom, Nat.zero_add]

end Writer

/-! ## The reader on what was written -/

/-- The segment a reader makes of `seg`. -/
def wireSegment (use32bit : Bool) (seg : Assegment) : Assegment where
  type := seg.type
  as := seg.as.map (wireAsn use32bit)
  length_lt := by rw [length_map]; exact seg.length_lt

@[simp] theorem wireSegment_true : wireSegment true seg = seg := Assegment.eq_of rfl (map_id seg.as)

section Reader
variable {use32bit : Bool} {s : Stream} {rest : List UInt8}

theorem wireAsn_false_lt (as : UInt32) : (wireAsn false as).toNat < 65536 := by
  simp only [wireAsn, Bool.false_eq_true, if_false]
  split_ifs with h
  · exact Nat.lt_succ_of_le h
  · decide

theorem asnGet_eq {as : UInt32} (h : s.unread = asnBytes use32bit as ++ rest) :
    asnGet use32bit s = some (wireAsn use32bit as, s.advance (if use32bit then 4 else 2)) := by
  cases use32bit with
  | true => exact streamGetl_of_unread h
  | false =>
    have hlt := wireAsn_false_lt as
    have hnat : (wireAsn false as).toUInt16.toNat = (wireAsn false as).toNat := by
      exact Nat.mod_eq_of_lt hlt
    have hback : (wireAsn false as).toUInt16.toUInt32 = wireAsn false as := by
      rw [← UInt32.toNat_inj, UInt16.toNat_toUInt32, hnat]
    have h' : s.unread = beBytes 2 (wireAsn false as).toUInt16.toNat ++ rest := by
      rw [hnat]
      exact h
    simp [asnGet, streamGetw_of_unread h', hback]

theorem asnsGet_eq : ∀ {as : List UInt32} {s : Stream}, s.unread = as.flatMap (asnBytes use32bit) ++ rest →
    asnsGet use32bit as.length s = some (as.map (wireAsn use32bit), s.advance (as.length * if use32bit then 4 else 2))
  | [], s, _ => by simp [asnsGet]
  | a :: as, s, h => by
    rw [flatMap_cons, append_assoc] at h
    have hrest : (s.advance (if use32bit then 4 else 2)).unread = as.flatMap (asnBytes use32bit) ++ rest := by
      rw [unread_advance, h, ← asnBytes_length use32bit a, drop_left]
    rw [length_cons, asnsGet, asnGet_eq h]
    simp only [bind_eq_bind, bind_some, asnsGet_eq hrest, advance_advance, Option.pure_def,
      map_cons, Nat.add_one_mul, Nat.add_comm]

theorem assegmentsParseLoop_cons {length bytes : Nat} {seg : Assegment} (hne : seg.as ≠ [])
    (hmax : seg.as.length ≤ asSegmentMax) (h : s.unread = segmentBytes use32bit seg ++ rest)
    (hlen : bytes + assegmentSize seg.as.length use32bit ≤ length) : assegmentsParseLoop use32bit length s bytes =
      (assegmentsParseLoop use32bit length (s.advance (assegmentSize seg.as.length use32bit))
        (bytes + assegmentSize seg.as.length use32bit)).map
          fun (r, s') => (r.map (wireSegment use32bit seg :: ·), s') := by
  have hpos : 0 < seg.as.length := length_pos_iff.2 hne
  have h255 : seg.as.length ≤ 255 := hmax
  have hsize : assegmentSize seg.as.length use32bit = 2 + seg.as.length * if use32bit then 4 else 2 := rfl
  have hlow : 2 ≤ seg.as.length * if use32bit then 4 else 2 := by split <;> omega
  have hlenNat : (ofNat seg.as.length).toNat = seg.as.length := by
    exact Nat.mod_eq_of_lt (by omega)
  have hlen0 : ofNat seg.as.length ≠ 0 := by
    intro h0
    rw [h0] at hlenNat
    simp at hlenNat
    omega
  have hu1 : (s.advance 1).unread = ofNat seg.as.length :: (seg.as.flatMap (asnBytes use32bit) ++ rest) := by
    rw [unread_advance, h]; rfl
  have hu2 : (s.advance 2).unread = seg.as.flatMap (asnBytes use32bit) ++ rest := by
    rw [unread_advance, h]; rfl
  have hseg : assegmentWith seg.type (seg.as.map (wireAsn use32bit)) = wireSegment use32bit seg :=
    Assegment.eq_of rfl (assegmentWith_as (by rw [length_map]; exact seg.length_lt))
  have hg1 := streamGetc_of_unread h
  have hg2 : streamGetc (s.advance 1) = some (ofNat seg.as.length, s.advance 2) := by
    rw [streamGetc_of_unread hu1, advance_advance]
  have hg3 := asnsGet_eq hu2
  rw [advance_advance, ← hsize] at hg3
  rw [assegmentsParseLoop, if_pos (by omega), if_neg (by simp only [asHeaderSize]; omega), hg1]
  simp only [bind_eq_bind, bind_some, hg2, hlenNat, hlen0, Nat.not_lt.2 hlen, AsSegType.ofCode_code, hg3, hseg]
  cases assegmentsParseLoop use32bit length _ _ with
  | none => rfl
  | some r => rfl

theorem assegmentsParseLoop_eq {length : Nat} : ∀ {segs : Aspath} {s : Stream} {bytes : Nat},
    (∀ seg ∈ segs, seg.as ≠ [] ∧ seg.as.length ≤ asSegmentMax) →
    s.unread = segs.flatMap (segmentBytes use32bit) ++ rest →
    bytes + (segs.flatMap (segmentBytes use32bit)).length = length → assegmentsParseLoop use32bit length s bytes =
      some (some (segs.map (wireSegment use32bit)), s.advance (length - bytes))
  | [], s, bytes, _, _, hlen => by
    rw [assegmentsParseLoop]
    simp at hlen
    simp [hlen]
  | seg :: segs, s, bytes, hsegs, h, hlen => by
    obtain ⟨hne, hmax⟩ := hsegs seg (by simp)
    rw [flatMap_cons, append_assoc] at h
    rw [flatMap_cons, length_append, segmentBytes_length] at hlen
    have hrest : (s.advance (assegmentSize seg.as.length use32bit)).unread =
        segs.flatMap (segmentBytes use32bit) ++ rest := by
      rw [unread_advance, h, ← segmentBytes_length use32bit seg, drop_left]
    rw [assegmentsParseLoop_cons hne hmax h (by omega),
      assegmentsParseLoop_eq (fun x hx => hsegs x (by simp [hx])) hrest (by omega), advance_advance]
    have hadv : assegmentSize seg.as.length use32bit + (length - (bytes + assegmentSize seg.as.length use32bit)) =
        length - bytes := by omega
    simp [hadv]

end Reader

end Tarpan.Bgpd
