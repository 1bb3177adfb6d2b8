/-
The round trip of AS paths over the wire, for every path in normal form. Reading back gives one
segment for each `AS_SEQUENCE` written, however many blocks it went out in; the numbers in it and
the octet count that `aspath_put` returns are right up to 510 numbers a segment and not beyond.
-/
import Tarpan.Bgpd.Aspath.Wire

namespace Tarpan.Bgpd

open Lib List UInt32

/-! ## Normalising what was read -/

variable {p rest : Aspath}

theorem normaliseFrom_of_not_packable {pin : Assegment}
    (h : ∀ y ∈ p.head?, ¬ typesPackable pin y) : normaliseFrom pin p = pin :: assegmentNormalise p := by
  cases p with
  | nil => rfl
  | cons y p => rw [normaliseFrom, if_neg (h y rfl), assegmentNormalise]

theorem normaliseFrom_run : ∀ {blocks : Aspath} {pin : Assegment},
    pin.type = .asSequence → (∀ x ∈ blocks, x.type = .asSequence) → (pin.as ++ blocks.flatMap (·.as)).length < 65536 →
    normaliseFrom pin (blocks ++ rest) = normaliseFrom (assegmentAppendAsns pin (blocks.flatMap (·.as))) rest
  | [], pin, _, _, _ => by
    rw [nil_append, flatMap_nil, assegmentAppendAsns, append_nil, assegmentWith_self]
  | x :: blocks, pin, hpin, hblocks, hfit => by
    rw [flatMap_cons, ← append_assoc] at hfit
    have hx : (assegmentAppendAsns pin x.as).as = pin.as ++ x.as :=
      assegmentWith_as (by rw [length_append] at hfit; omega)
    rw [cons_append, normaliseFrom, if_pos ⟨hpin.trans (hblocks x (by simp)).symm, hpin⟩,
      normaliseFrom_run ((assegmentAppendAsns_type pin x.as).trans hpin) (fun y hy => hblocks y (by simp [hy]))
        (by rwa [hx])]
    show normaliseFrom (assegmentWith pin.type ((assegmentAppendAsns pin x.as).as ++ blocks.flatMap (·.as))) rest =
      normaliseFrom (assegmentWith pin.type (pin.as ++ (x.as ++ blocks.flatMap (·.as)))) rest
    rw [hx, append_assoc]

/-- The numbers on the wire for `seg`. -/
def splitData (seg : Assegment) : List UInt32 := (splitSegment seg).flatMap (·.as)

variable (seg : Assegment)

theorem splitData_eq_append :
    splitData seg = (replicate (splitTurns seg.as.length) (seg.as.take asSegmentMax)).flatten ++
      seg.as.drop (asSegmentMax * splitTurns seg.as.length) := by
  simp [splitData, splitSegment, flatMap]

variable {seg : Assegment} {use32bit : Bool}

theorem splitData_length (hne : seg.as ≠ []) : (splitData seg).length = seg.as.length := by
  have hpos : 0 < seg.as.length := length_pos_iff.2 hne
  obtain ⟨hlo, -⟩ := splitTurns_spec hpos
  rw [splitData_eq_append, length_append, length_flatten, map_replicate, sum_replicate,
    smul_eq_mul, length_drop, length_take]
  rcases Nat.eq_zero_or_pos (splitTurns seg.as.length) with h0 | h1
  · rw [h0]
    omega
  have hfull := (Nat.le_mul_of_pos_right _ h1).trans hlo.le
  rw [Nat.min_eq_left hfull, Nat.mul_comm]
  omega

/-- With at most one block split off, the numbers on the wire are those of the segment. -/
theorem splitData_of_le (h : seg.as.length ≤ 510) : splitData seg = seg.as := by
  have hturns : splitTurns seg.as.length = 0 ∨ splitTurns seg.as.length = 1 := by
    simp only [splitTurns, asSegmentMax]
    omega
  rw [splitData_eq_append]
  rcases hturns with h0 | h1
  · simp [h0]
  · simp [h1]

/-- The segment that stands for `seg` in the path a reader ends up with. -/
def rejoinSegment (use32bit : Bool) (seg : Assegment) : Assegment :=
  if seg.type = .asSequence then assegmentWith .asSequence ((splitData seg).map (wireAsn use32bit))
  else assegmentSort (wireSegment use32bit seg)

@[simp] theorem rejoinSegment_type (use32bit : Bool) (seg : Assegment) :
    (rejoinSegment use32bit seg).type = seg.type := by
  unfold rejoinSegment
  split_ifs with h
  · exact h.symm
  · exact assegmentSort_type _

section Rejoin
variable {use32bit : Bool}

/-- The blocks of one `AS_SEQUENCE` become one segment again, whatever else follows. -/
theorem normalise_sequence (hne : seg.as ≠ [])
    (hseq : seg.type = .asSequence) (hrest : ∀ y ∈ rest.head?, y.type ≠ .asSequence) :
    assegmentNormalise ((splitSegment seg).map (wireSegment use32bit) ++ rest) =
      rejoinSegment use32bit seg :: assegmentNormalise rest := by
  have htypes : ∀ x ∈ (splitSegment seg).map (wireSegment use32bit), x.type = .asSequence := by
    intro x hx
    obtain ⟨y, hy, rfl⟩ := mem_map.1 hx
    exact (mem_splitSegment hne hy).1.trans hseq
  have hdata : ((splitSegment seg).map (wireSegment use32bit)).flatMap (·.as) =
      (splitData seg).map (wireAsn use32bit) := by
    simp [splitData, flatMap_map, map_flatMap, wireSegment]
  cases hb : (splitSegment seg).map (wireSegment use32bit) with
  | nil => simp [splitSegment] at hb
  | cons x blocks =>
    rw [hb, flatMap_cons] at hdata
    rw [hb] at htypes
    have hx := htypes x (by simp)
    have hfit : (x.as ++ blocks.flatMap (·.as)).length < 65536 := by
      rw [hdata, length_map, splitData_length hne]
      exact seg.length_lt
    rw [cons_append, assegmentNormalise, assegmentSort_of_sequence (by rw [hx]; rfl),
      normaliseFrom_run hx (fun y hy => htypes y (by simp [hy])) hfit, assegmentAppendAsns, hdata, hx,
      normaliseFrom_of_not_packable fun y hy h => hrest y hy (h.1.symm.trans h.2), rejoinSegment, if_pos hseq]

/-- Normalising the blocks read back gives one segment for each segment written. -/
theorem normalise_wire : ∀ {p : Aspath}, Normalised p →
    (∀ seg ∈ p, seg.type ≠ .asSequence → seg.as.length ≤ asSegmentMax) →
    assegmentNormalise ((p.flatMap splitSegment).map (wireSegment use32bit)) = p.map (rejoinSegment use32bit)
  | [], _, _ => rfl
  | seg :: next, hp, hmax => by
    obtain ⟨hseg, hhead, hnext⟩ := normalised_cons.1 hp
    have ih := normalise_wire hnext fun x hx => hmax x (by simp [hx])
    rw [flatMap_cons, map_append, map_cons, ← ih]
    by_cases hseq : seg.type = .asSequence
    · refine normalise_sequence hseg.nonempty hseq fun y hy htype => ?_
      -- the first block read next has the type of the segment that follows
      cases next with
      | nil => cases hy
      | cons seg' next =>
        have hmem : y ∈ (splitSegment seg').map (wireSegment use32bit) := by
          rw [flatMap_cons, map_append] at hy
          cases hb : (splitSegment seg').map (wireSegment use32bit) with
          | nil => simp [splitSegment] at hb
          | cons z zs =>
            rw [hb] at hy
            simp at hy
            simp [hy]
        obtain ⟨z, hz, rfl⟩ := mem_map.1 hmem
        have hz' := (mem_splitSegment (normalised_cons.1 hnext).1.nonempty hz).1
        exact hhead seg' rfl ⟨hseq.trans (htype.symm.trans hz'), hseq⟩
    · rw [splitSegment_of_le (hmax seg (by simp) hseq), map_singleton, singleton_append,
        assegmentNormalise, rejoinSegment, if_neg hseq]
      exact normaliseFrom_of_not_packable fun y _ h =>
        hseq ((assegmentSort_type (wireSegment use32bit seg)).symm.trans h.2)

end Rejoin

/-! ## The round trip -/

theorem pathBytes_length_even (use32bit : Bool) (segs : Aspath) :
    (segs.flatMap (segmentBytes use32bit)).length % 2 = 0 := by
  induction segs with
  | nil => rfl
  | cons seg segs ih =>
    rw [flatMap_cons, length_append, segmentBytes_length, assegmentSize, asHeaderSize]
    split <;> omega

/-- What the parser makes of the octets of a path in normal form. -/
theorem assegmentsParse_pathBytes {r : Stream} {rest : List UInt8}
    (hp : Normalised p) (h : r.unread = pathBytes use32bit p ++ rest) :
    assegmentsParse r (pathBytes use32bit p).length use32bit =
      some (some (assegmentNormalise ((p.flatMap splitSegment).map (wireSegment use32bit))),
        r.advance (pathBytes use32bit p).length) := by
  have hrdbl : (pathBytes use32bit p).length ≤ r.readable := by
    rw [← r.unread_length, h, length_append]
    exact Nat.le_add_right ..
  have heven := pathBytes_length_even use32bit (p.flatMap splitSegment)
  rw [← pathBytes] at heven
  have hblocks : ∀ x ∈ p.flatMap splitSegment, x.as ≠ [] ∧ x.as.length ≤ asSegmentMax := by
    intro x hx
    obtain ⟨seg, hseg, hmem⟩ := mem_flatMap.1 hx
    exact (mem_splitSegment (hp.segs seg hseg).nonempty hmem).2
  have hloop := assegmentsParseLoop_eq hblocks h (Nat.zero_add _)
  unfold assegmentsParse
  split
  · rename_i h0
    -- no octets, no segments
    cases p with
    | nil => simp [pathBytes, assegmentNormalise]
    | cons seg p =>
      rw [pathBytes_cons, length_append, splitSegment_bytes_length use32bit (normalised_cons.1 hp).1.nonempty] at h0
      simp only [assegmentSize, asHeaderSize] at h0
      omega
  · rename_i h0
    rw [if_neg (by simp only [asHeaderSize]; omega), pathBytes, hloop]
    rfl

section Count

theorem splitCount_ge (use32bit : Bool) (w : Nat) : ∀ turns written, w ≤ written →
    turns * assegmentSize (w + asSegmentMax) use32bit ≤ splitCount use32bit turns written
  | 0, _, _ => by simp [splitCount]
  | turns + 1, written, hw => by
    have ih := splitCount_ge use32bit w turns (written + asSegmentMax) (by omega)
    have hmono : assegmentSize (w + asSegmentMax) use32bit ≤ assegmentSize (written + asSegmentMax) use32bit := by
      exact Nat.add_le_add_left (Nat.mul_le_mul_right _ (by omega)) _
    rw [splitCount, Nat.add_one_mul]
    omega

/-- The count of the splitting loop is right for one turn and too high from the second on. -/
theorem splitCount_eq_iff (use32bit : Bool) (turns : Nat) :
    splitCount use32bit turns 0 = turns * assegmentSize asSegmentMax use32bit ↔ turns ≤ 1 := by
  match turns with
  | 0 => simp [splitCount]
  | 1 => simp [splitCount]
  | turns + 2 =>
    have hge := splitCount_ge use32bit asSegmentMax (turns + 1) asSegmentMax (by omega)
    have hlt : assegmentSize asSegmentMax use32bit < assegmentSize (asSegmentMax + asSegmentMax) use32bit := by
      cases use32bit <;> decide
    have hmul : (turns + 1) * assegmentSize asSegmentMax use32bit <
        (turns + 1) * assegmentSize (asSegmentMax + asSegmentMax) use32bit :=
      Nat.mul_lt_mul_of_pos_left hlt (Nat.succ_pos _)
    rw [splitCount, Nat.zero_add, show turns + 2 = (turns + 1) + 1 from rfl, Nat.add_one_mul (turns + 1)]
    constructor
    · intro h
      omega
    · intro h
      omega

/-- `aspath_put` returns the number of octets it wrote iff no segment exceeds 510 numbers. -/
theorem putCount_eq_iff (use32bit : Bool) (hp : ∀ seg ∈ p, seg.as ≠ []) :
    (pathBytes use32bit p).length ≤ putCount use32bit p ∧
      (putCount use32bit p = (pathBytes use32bit p).length ↔ ∀ seg ∈ p, seg.as.length ≤ 510) := by
  induction p with
  | nil => simp [putCount, pathBytes]
  | cons seg p ih =>
    have hne := hp seg (by simp)
    obtain ⟨hle, hiff⟩ := ih fun x hx => hp x (by simp [hx])
    have hge := splitCount_ge use32bit 0 (splitTurns seg.as.length) 0 le_rfl
    have hseg := splitCount_eq_iff use32bit (splitTurns seg.as.length)
    have hturns : splitTurns seg.as.length ≤ 1 ↔ seg.as.length ≤ 510 := by
      simp only [splitTurns, asSegmentMax]
      omega
    rw [Nat.zero_add] at hge
    rw [pathBytes_cons, length_append, splitSegment_bytes_length use32bit hne, forall_mem_cons, ← hiff, ← hturns]
    simp only [putCount, map_cons, sum_cons] at hle ⊢
    constructor
    · omega
    · constructor
      · intro h
        omega
      · rintro ⟨h1, h2⟩
        omega

theorem splitCount_le (use32bit : Bool) : ∀ turns written,
    splitCount use32bit turns written ≤ turns * assegmentSize (written + asSegmentMax * turns) use32bit
  | 0, _ => by simp [splitCount]
  | turns + 1, written => by
    have ih := splitCount_le use32bit turns (written + asSegmentMax)
    have hsum : written + asSegmentMax + asSegmentMax * turns = written + asSegmentMax * (turns + 1) := by
      rw [Nat.mul_add_one]
      omega
    have hmono : assegmentSize (written + asSegmentMax) use32bit ≤
        assegmentSize (written + asSegmentMax * (turns + 1)) use32bit := by
      exact Nat.add_le_add_left (Nat.mul_le_mul_right _ (by rw [← hsum]; omega)) _
    rw [hsum] at ih
    rw [splitCount, Nat.add_one_mul]
    omega

/-- The count stays within five times the size of a path whose segments are not longer than five blocks. -/
theorem putCount_le (use32bit : Bool) (hp : ∀ seg ∈ p, seg.as ≠ []) (hmax : ∀ seg ∈ p, seg.as.length ≤ 1275) :
    putCount use32bit p ≤ 5 * (pathBytes use32bit p).length := by
  induction p with
  | nil => simp [putCount]
  | cons seg p ih =>
    have hne := hp seg (by simp)
    have hlen := hmax seg (by simp)
    have ih := ih (fun x hx => hp x (by simp [hx])) fun x hx => hmax x (by simp [hx])
    have hcnt := splitCount_le use32bit (splitTurns seg.as.length) 0
    have hturns : splitTurns seg.as.length ≤ 4 := by
      simp only [splitTurns, asSegmentMax]
      omega
    have hsize : splitTurns seg.as.length * assegmentSize (0 + asSegmentMax * splitTurns seg.as.length) use32bit ≤
        splitTurns seg.as.length * (4 * assegmentSize asSegmentMax use32bit) := by
      refine Nat.mul_le_mul_left _ ?_
      simp only [assegmentSize, asSegmentMax]
      split <;> omega
    have hsp : splitTurns seg.as.length * (4 * assegmentSize asSegmentMax use32bit) =
        4 * (splitTurns seg.as.length * assegmentSize asSegmentMax use32bit) := Nat.mul_left_comm ..
    rw [pathBytes_cons, length_append, splitSegment_bytes_length use32bit hne]
    simp only [putCount, map_cons, sum_cons] at ih ⊢
    omega

end Count

/-! ## Paths that come back -/

/-- The path that is read back from a wire with four-octet numbers. -/
def readPath (p : Aspath) : Aspath := assegmentNormalise ((p.flatMap splitSegment).map (wireSegment true))

section ReadPath

/-- The segments that are never joined. -/
def countUnjoined (p : Aspath) : Nat := p.countP (·.type ≠ .asSequence)

@[simp] theorem countUnjoined_cons (p : Aspath) :
    countUnjoined (seg :: p) = countUnjoined p + if seg.type = .asSequence then 0 else 1 := by
  simp [countUnjoined, countP_cons]

@[simp] theorem countUnjoined_append (p q : Aspath) : countUnjoined (p ++ q) = countUnjoined p + countUnjoined q :=
  countP_append

theorem countUnjoined_normaliseFrom : ∀ (rest : Aspath) (pin : Assegment),
    countUnjoined (normaliseFrom pin rest) = countUnjoined (pin :: rest)
  | [], pin => rfl
  | seg :: rest, pin => by
    rw [normaliseFrom]
    split_ifs with hpack
    · have hpin := hpack.2
      have hseg := hpack.1.symm.trans hpin
      rw [countUnjoined_normaliseFrom rest]
      simp [hpin, hseg]
    · simp [countUnjoined_normaliseFrom rest (assegmentSort seg)]

theorem countUnjoined_normalise (p : Aspath) : countUnjoined (assegmentNormalise p) = countUnjoined p := by
  cases p with
  | nil => rfl
  | cons seg p => simp [assegmentNormalise, countUnjoined_normaliseFrom]

theorem countUnjoined_splitSegment :
    countUnjoined (splitSegment seg) = if seg.type = .asSequence then 0 else splitTurns seg.as.length + 1 := by
  unfold countUnjoined splitSegment
  by_cases h : seg.type = .asSequence <;> simp [countP_replicate, h]

/-- Splitting leaves the number of these segments as it is exactly where none of them is split. -/
theorem countUnjoined_split (p : Aspath) : countUnjoined p ≤ countUnjoined (p.flatMap splitSegment) ∧
      (countUnjoined (p.flatMap splitSegment) = countUnjoined p ↔
        ∀ seg ∈ p, seg.type ≠ .asSequence → splitTurns seg.as.length = 0) := by
  induction p with
  | nil => simp
  | cons seg p ih =>
    obtain ⟨hle, hiff⟩ := ih
    rw [flatMap_cons, countUnjoined_append, countUnjoined_cons, countUnjoined_splitSegment, forall_mem_cons, ← hiff]
    by_cases h : seg.type = .asSequence
    · simp [h, hle]
    rw [if_neg h, if_neg h]
    constructor
    · omega
    · constructor
      · intro heq
        exact ⟨fun _ => by omega, by omega⟩
      · rintro ⟨hturns, heq⟩
        have := hturns h
        omega

theorem rejoinSegment_of_le (hseg : seg.WellFormed) (h : seg.as.length ≤ 510) : rejoinSegment true seg = seg := by
  unfold rejoinSegment
  split_ifs with hseq
  · have hmap : seg.as.map (wireAsn true) = seg.as := map_id _
    rw [splitData_of_le h, hmap, ← hseq, assegmentWith_self]
  · rw [wireSegment_true, hseg.sort_eq]

/-- A path with segments that are split at most once comes back as it went where only sequences are split. -/
theorem readPath_eq_iff (hp : Normalised p) (hshort : ∀ seg ∈ p, seg.as.length ≤ 510) :
    readPath p = p ↔ ∀ seg ∈ p, seg.type ≠ .asSequence → seg.as.length ≤ asSegmentMax := by
  constructor
  · intro h seg hseg htype
    have hmap : (p.flatMap splitSegment).map (wireSegment true) = p.flatMap splitSegment :=
      (map_congr_left fun x _ => wireSegment_true x).trans (map_id _)
    have hcnt : countUnjoined (p.flatMap splitSegment) = countUnjoined p := by
      rw [← countUnjoined_normalise, ← hmap]
      exact congrArg countUnjoined h
    have hturns := (countUnjoined_split p).2.1 hcnt seg hseg htype
    simp only [splitTurns, asSegmentMax] at hturns ⊢
    omega
  · intro h
    rw [readPath, normalise_wire hp h]
    calc p.map (rejoinSegment true) = p.map id :=
          map_congr_left fun seg hseg => rejoinSegment_of_le (hp.segs seg hseg) (hshort seg hseg)
      _ = p := map_id p

end ReadPath

/-- Writing `p` to `s` and reading the octets back from wherever they stand: the parser accepts
them, gives a path equal to `p` unless a set or confederation segment had to be split, and the
writer has returned the number of octets it wrote. -/
def WireRoundTrip (s : Stream) (p : Aspath) : Prop :=
  ∃ s' n bytes q, aspathPut s p true = some (s', n) ∧ s'.data = s.data ++ bytes ∧ n = bytes.length ∧
    (∀ (r : Stream) (rest : List UInt8), r.unread = bytes ++ rest →
      ∃ r', assegmentsParse r bytes.length true = some (some q, r')) ∧
    ((∀ seg ∈ p, seg.type ≠ .asSequence → seg.as.length ≤ asSegmentMax) → aspathCmp q p = true)

section RoundTrip
variable {s : Stream} {p : Aspath}

/-- Every run of the writer with enough room, spelled out. -/
theorem exists_aspathPut (hp : Normalised p) (hroom : pathRoom use32bit p ≤ s.writeable) :
    ∃ s', aspathPut s p use32bit = some (s', putCount use32bit p) ∧ s'.data = s.data ++ pathBytes use32bit p := by
  have hlen := pathBytes_length use32bit fun x hx => (hp.segs x hx).nonempty
  obtain ⟨s', hs', happ⟩ := streamAppend_spec (hlen.trans_le hroom)
  refine ⟨s', ?_, happ.data⟩
  rw [aspathPut_eq hp hroom, hs', Option.map_some]

theorem not_wireRoundTrip (hp : Normalised p) (hroom : pathRoom true p ≤ s.writeable) (hseg : seg ∈ p)
    (hlong : 510 < seg.as.length) : ¬ WireRoundTrip s p := by
  rintro ⟨s', n, bytes, q, hput, hdata, hn, -, -⟩
  obtain ⟨t, ht, htdata⟩ := exists_aspathPut hp hroom
  rw [ht] at hput
  obtain ⟨rfl, rfl⟩ : t = s' ∧ putCount true p = n := by simpa using hput
  obtain rfl : pathBytes true p = bytes := append_cancel_left (htdata.symm.trans hdata)
  have hall := (putCount_eq_iff true fun x hx => (hp.segs x hx).nonempty).2.1 hn
  have := hall seg hseg
  omega

/-- The 32-bit wire form of a normalised path, with room for it, goes round exactly when none of
its segments exceeds 510 numbers. -/
theorem wireRoundTrip_iff (hp : Normalised p) (hroom : pathRoom true p ≤ s.writeable) :
    WireRoundTrip s p ↔ ∀ seg ∈ p, seg.as.length ≤ 510 := by
  constructor
  · intro h seg hseg
    by_contra hlong
    exact not_wireRoundTrip hp hroom hseg (by omega) h
  · intro hshort
    obtain ⟨s', hput, hdata⟩ := exists_aspathPut hp hroom
    have hcnt := (putCount_eq_iff true fun x hx => (hp.segs x hx).nonempty).2.2 hshort
    refine ⟨s', _, _, _, hput, hdata, hcnt, fun r rest h => ⟨_, assegmentsParse_pathBytes hp h⟩, fun hmax => ?_⟩
    exact aspathCmp_iff.2 ((readPath_eq_iff hp hshort).2 hmax)

theorem normalised_singleton_sequence {l : List UInt32} (hne : l ≠ []) (h : l.length < 65536) :
    Normalised [assegmentWith .asSequence l] := by
  refine normalised_cons.2 ⟨⟨?_, fun hset => ?_⟩, by simp, .nil⟩
  · rwa [assegmentWith_as h]
  · cases hset

/-- A path of 600 numbers in three segments, all within the bound. -/
theorem wireRoundTrip_three_segments :
    WireRoundTrip (streamNew 4096) [assegmentWith .asSequence ((range 300).map ofNat),
      assegmentWith .asSet [1, 2], assegmentWith .asSequence ((range 298).map ofNat)] := by
  have h300 : (assegmentWith .asSequence ((range 300).map ofNat)).as =
      (range 300).map ofNat := assegmentWith_as (by simp)
  have h298 : (assegmentWith .asSequence ((range 298).map ofNat)).as =
      (range 298).map ofNat := assegmentWith_as (by simp)
  have h2 : (assegmentWith .asSet [1, 2]).as = [1, 2] := rfl
  refine (wireRoundTrip_iff ?_ ?_).2 ?_
  · refine normalised_cons.2 ⟨⟨by simp [h300], fun h => by cases h⟩, by simp [typesPackable],
      normalised_cons.2 ⟨⟨by simp [h2], fun _ => by rw [h2]; decide⟩, by simp [typesPackable],
        normalised_singleton_sequence (by simp) (by simp)⟩⟩
  · simp [pathRoom, h300, h298, h2, asHeaderSize, Stream.writeable, Stream.endp, streamNew]
  · simp [h300, h298, h2]

/-- 511 numbers: the count is 1020 octets too high. -/
theorem not_wireRoundTrip_511 :
    ¬ WireRoundTrip (streamNew 4096) [assegmentWith .asSequence ((range 511).map ofNat)] := by
  have has : (assegmentWith .asSequence ((range 511).map ofNat)).as =
      (range 511).map ofNat := assegmentWith_as (by simp)
  refine not_wireRoundTrip (normalised_singleton_sequence (by simp) (by simp)) ?_ (mem_singleton_self _) ?_
  · simp [pathRoom, has, asHeaderSize, Stream.writeable, Stream.endp, streamNew]
  · simp [has]

end RoundTrip

end Tarpan.Bgpd
