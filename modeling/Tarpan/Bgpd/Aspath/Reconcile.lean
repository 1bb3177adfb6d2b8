/-
AS4 migration: `aspath_reconcile_as4` puts the hops that old speakers prepended to an AS_PATH back
in front of the AS4_PATH that went along unseen. For every path `P` in normal form without
confederation segments, and with sets small enough to go out in one piece, the path restored from
what was written in two octets a number is `P` with those hops in front.
-/
import Tarpan.Bgpd.Aspath.RoundTrip

namespace Tarpan.Bgpd

open Lib List Option Assegment UInt32

/-! ## The model -/

/-- `aspath_merge`: an `as1` without segments leaves `last` at NULL, which is then followed. -/
def aspathMerge (as1 as2 : Aspath) : Option Aspath := if as1 = [] then none else some (as1 ++ as2)

/-- The loop of `aspath_reconcile_as4` that copies the first `hops` hops of a path. -/
def reconcileTake : Aspath → Int → Aspath
  | [], _ => []
  | seg :: rest, hops =>
    if hops > 0 then
      match seg.type with
      | .asSet | .asConfedSet => assegmentWith seg.type seg.as :: reconcileTake rest (hops - 1)
      | .asConfedSequence =>
        -- a confederation sequence is never split: the hop count is raised to its length
        let hops := if hops < seg.as.length then (seg.as.length : Int) else hops
        assegmentWith seg.type (seg.as.take (min seg.as.length hops.toNat)) :: reconcileTake rest (hops - seg.as.length)
      | .asSequence =>
        assegmentWith seg.type (seg.as.take (min seg.as.length hops.toNat)) :: reconcileTake rest (hops - seg.as.length)
    else []

def aspathReconcileAs4 (aspath as4path : Aspath) : Option Aspath :=
  let hops : Int := (aspathCountHops aspath + aspathCountConfeds aspath : Nat) - (aspathCountHops as4path : Nat)
  let hops := if hops < 0 then (aspathCountHops aspath : Int) else hops
  if hops = 0 then some as4path
  else (aspathMerge (reconcileTake aspath hops) as4path).map assegmentNormalise

/-- The segment that old speakers put in front: none for no numbers. -/
def sequenceOf (asns : List UInt32) : Aspath := if asns = [] then [] else [assegmentWith .asSequence asns]

/-! ## Paths of one shape -/

/-- `t` has a segment for each segment of `p`, of its type and, for sequences, of its length. -/
def SameShape (p t : Aspath) : Prop :=
  List.Forall₂ (fun x y => y.type = x.type ∧ (x.type = .asSequence → y.as.length = x.as.length)) p t

variable {p t : Aspath}

theorem SameShape.countHops (h : SameShape p t) : aspathCountHops t = aspathCountHops p := by
  induction h with
  | nil => rfl
  | cons hxy _ ih =>
    obtain ⟨htype, hlen⟩ := hxy
    rw [aspathCountHops_cons, aspathCountHops_cons, ih, hopCount, hopCount, htype]
    split
    · rename_i hseq
      rw [hlen hseq]
    · rfl
    · rfl
    · rfl

theorem SameShape.countConfeds (h : SameShape p t)
    (hp : ∀ seg ∈ p, seg.type.isConfed = false) : aspathCountConfeds t = 0 := by
  induction h with
  | nil => rfl
  | cons hxy _ ih =>
    rw [aspathCountConfeds_cons, ih fun seg hseg => hp seg (mem_cons_of_mem _ hseg), confedCount, hxy.1]
    split <;> simp_all [AsSegType.isConfed]

theorem SameShape.jointFits {a : Aspath} (h : SameShape p t) (hfit : JointFits a p) : JointFits a t := by
  intro x hx y hy hpack
  cases h with
  | nil => cases hy
  | @cons p0 t0 p t hxy _ =>
    obtain ⟨htype, hlen⟩ := hxy
    obtain rfl : t0 = y := mem_some_iff.1 hy
    have hseq : t0.type = .asSequence := hpack.1.symm.trans hpack.2
    rw [hlen (htype.symm.trans hseq)]
    exact hfit x hx p0 rfl ⟨hpack.1.trans htype, hpack.2⟩

theorem reconcileTake_of_nonpos {hops : Int} (h : hops ≤ 0) (p : Aspath) : reconcileTake p hops = [] := by
  cases p with
  | nil => rfl
  | cons seg p => rw [reconcileTake, if_neg (by omega)]

variable {asns : List UInt32} {seg : Assegment}

/-- A cut at `asns` inside or at the end of a leading sequence copies just those numbers. -/
theorem reconcileTake_sequence {more : List UInt32} (hne : asns ≠ [])
    (htype : seg.type = .asSequence) (has : seg.as = asns ++ more) (rest : Aspath) :
    reconcileTake (seg :: rest) asns.length = [assegmentWith .asSequence asns] := by
  have hpos : 0 < asns.length := length_pos_iff.2 hne
  have hmin : min seg.as.length (asns.length : Int).toNat = asns.length := by
    rw [has, length_append]
    omega
  rw [reconcileTake, if_pos (by omega)]
  simp only [htype, hmin]
  rw [has, take_left, reconcileTake_of_nonpos (by rw [length_append]; omega)]

/-- The path received has the numbers of `asns` at its head and as many hops more than `t`. -/
theorem join_sequence_head (hlen : asns.length < 65536) (hfit : JointFits [assegmentWith .asSequence asns] t) :
    ∃ seg rest more, joinSegments [assegmentWith .asSequence asns] t = seg :: rest ∧
      seg.type = .asSequence ∧ seg.as = asns ++ more ∧
      aspathCountHops (seg :: rest) = asns.length + aspathCountHops t ∧
      aspathCountConfeds (seg :: rest) = aspathCountConfeds t := by
  have has : (assegmentWith .asSequence asns).as = asns := assegmentWith_as hlen
  cases t with
  | nil =>
    refine ⟨_, [], [], rfl, rfl, by rw [has, append_nil], ?_, rfl⟩
    simp [hopCount, has]
  | cons y t =>
    by_cases hpack : typesPackable (assegmentWith .asSequence asns) y
    · have hjoint := hfit (assegmentWith .asSequence asns) rfl y rfl hpack
      have happ := assegmentAppendAsns_as hjoint
      have hy : y.type = .asSequence := hpack.1.symm
      refine ⟨_, t, y.as, if_pos hpack, rfl, by rw [happ, has], ?_, ?_⟩
      · rw [aspathCountHops_cons, aspathCountHops_cons, ← Nat.add_assoc]
        congr 1
        simp [hopCount, happ, has, hy]
      · rw [aspathCountConfeds_cons]
        congr 1
        simp [confedCount, hy]
    · refine ⟨_, y :: t, [], if_neg hpack, rfl, by rw [has, append_nil], ?_, ?_⟩
      · rw [aspathCountHops_cons]
        simp [hopCount, has]
      · simp [confedCount]

/-! ## Restoring a path -/

/-- The path restored depends on the shape of the AS_PATH only: it is the AS4_PATH with the
prepended numbers in front. -/
theorem aspathReconcileAs4_eq (hlen : asns.length < 65536)
    (hp : Normalised p) (ht : Normalised t) (hshape : SameShape p t)
    (hcfd : ∀ seg ∈ p, seg.type.isConfed = false) (hfit : JointFits (sequenceOf asns) p) :
    aspathReconcileAs4 (assegmentNormalise (sequenceOf asns ++ t)) p =
      some (assegmentNormalise (sequenceOf asns ++ p)) := by
  by_cases hne : asns = []
  · subst hne
    have hhops : ((aspathCountHops t + aspathCountConfeds t : Nat) : Int) - (aspathCountHops p : Nat) = 0 := by
      rw [hshape.countHops, hshape.countConfeds hcfd]
      omega
    simp only [sequenceOf, if_true, nil_append, hp.normalise_eq, ht.normalise_eq]
    simp only [aspathReconcileAs4, hhops, lt_irrefl, if_false, if_true]
  · rw [sequenceOf, if_neg hne] at hfit ⊢
    have hwf := normalised_singleton_sequence hne hlen
    obtain ⟨seg, rest, more, hjoin, htype, has, hhops, hconfeds⟩ := join_sequence_head hlen (hshape.jointFits hfit)
    have hpos : 0 < asns.length := length_pos_iff.2 hne
    have hdiff : ((aspathCountHops (seg :: rest) + aspathCountConfeds (seg :: rest) : Nat) : Int) -
        (aspathCountHops p : Nat) = asns.length := by
      rw [hhops, hconfeds, hshape.countHops, hshape.countConfeds hcfd]
      omega
    rw [assegmentNormalise_append hwf ht, hjoin]
    simp only [aspathReconcileAs4, hdiff]
    rw [if_neg (by omega), if_neg (by omega), reconcileTake_sequence hne htype has rest]
    simp [aspathMerge]

/-! ## What the writer leaves of the shape -/

section Rejoin
variable {use32bit : Bool} {p : Aspath}

theorem rejoinSegment_wellFormed (hseg : seg.WellFormed) : (rejoinSegment use32bit seg).WellFormed ∧
      (seg.type = .asSequence → (rejoinSegment use32bit seg).as.length = seg.as.length) := by
  by_cases hseq : seg.type = .asSequence
  · have hlen := splitData_length hseg.nonempty
    have has : (rejoinSegment use32bit seg).as = (splitData seg).map (wireAsn use32bit) := by
      rw [rejoinSegment, if_pos hseq]
      exact assegmentWith_as (by rw [length_map, hlen]; exact seg.length_lt)
    refine ⟨⟨?_, fun hset => ?_⟩, fun _ => ?_⟩
    · rw [has, ← length_pos_iff, length_map, hlen]
      exact length_pos_iff.2 hseg.nonempty
    · rw [rejoinSegment_type, hseq] at hset
      cases hset
    · rw [has, length_map, hlen]
  · refine ⟨?_, fun h => absurd h hseq⟩
    rw [rejoinSegment, if_neg hseq]
    exact assegmentSort_wellFormed (by simpa [wireSegment] using hseg.nonempty)

theorem sameShape_rejoin (hp : Normalised p) : SameShape p (p.map (rejoinSegment use32bit)) := by
  rw [SameShape, forall₂_map_right_iff, forall₂_same]
  intro seg hseg
  exact ⟨rejoinSegment_type use32bit seg, (rejoinSegment_wellFormed (hp.segs seg hseg)).2⟩

theorem normalised_rejoin (hp : Normalised p) : Normalised (p.map (rejoinSegment use32bit)) := by
  constructor
  · intro x hx
    obtain ⟨seg, hseg, rfl⟩ := mem_map.1 hx
    exact (rejoinSegment_wellFormed (hp.segs seg hseg)).1
  · rw [isChain_map]
    refine hp.unpacked.imp fun x y hxy h => hxy ?_
    simpa [typesPackable] using h

end Rejoin

/-- `p` is written to `s` in two octets a number and read back as `t`; with `asns` in front of `t`
and `p` alongside, reconciliation gives the normal form of `asns` in front of `p`. -/
def As4Restored (s : Stream) (p : Aspath) (asns : List UInt32) : Prop :=
  ∃ s' n bytes t, aspathPut s p false = some (s', n) ∧ s'.data = s.data ++ bytes ∧
    (∀ (r : Stream) (rest : List UInt8), r.unread = bytes ++ rest →
      ∃ r', assegmentsParse r bytes.length false = some (some t, r')) ∧
    aspathReconcileAs4 (assegmentNormalise (sequenceOf asns ++ t)) p =
      some (assegmentNormalise (sequenceOf asns ++ p)) ∧
    (asns = [] → aspathReconcileAs4 t p = some p)

section Restore
variable {s : Stream} {p : Aspath} {asns : List UInt32}

/-- The AS4 round trip for every path in normal form without confederation segments whose sets
fit one block on the wire. -/
theorem as4Restored (hp : Normalised p) (hconfed : ∀ seg ∈ p, seg.type.isConfed = false)
    (hset : ∀ seg ∈ p, seg.type = .asSet → seg.as.length ≤ asSegmentMax)
    (hroom : pathRoom false p ≤ s.writeable) (hlen : asns.length < 65536)
    (hfit : JointFits (sequenceOf asns) p) : As4Restored s p asns := by
  obtain ⟨s', hput, hdata⟩ := exists_aspathPut hp hroom
  have hmax : ∀ seg ∈ p, seg.type ≠ .asSequence → seg.as.length ≤ asSegmentMax := by
    intro seg hseg hne
    apply hset seg hseg
    have := hconfed seg hseg
    cases htype : seg.type <;> simp_all [AsSegType.isConfed]
  have ht : Normalised (p.map (rejoinSegment false)) := normalised_rejoin hp
  have hshape : SameShape p (p.map (rejoinSegment false)) := sameShape_rejoin hp
  refine ⟨s', _, _, p.map (rejoinSegment false), hput, hdata, fun r rest h => ?_, ?_, ?_⟩
  · rw [← normalise_wire hp hmax]
    exact ⟨_, assegmentsParse_pathBytes hp h⟩
  · exact aspathReconcileAs4_eq hlen hp ht hshape hconfed hfit
  · rintro rfl
    have h := aspathReconcileAs4_eq hlen hp ht hshape hconfed hfit
    simpa [sequenceOf, hp.normalise_eq, ht.normalise_eq] using h

/-- A set of more than 255 numbers leaves as two sets and so gains a hop on the way: its own
path is not restored. -/
theorem not_as4Restored_set (htype : seg.type = .asSet) (hseg : seg.WellFormed)
    (hlo : asSegmentMax < seg.as.length) (hhi : seg.as.length ≤ 510)
    (hroom : pathRoom false [seg] ≤ s.writeable) : ¬ As4Restored s [seg] [] := by
  rintro ⟨s', n, bytes, t, hput, hdata, hparse, -, hres⟩
  have hp : Normalised [seg] := normalised_cons.2 ⟨hseg, by simp, .nil⟩
  obtain ⟨s1, hput1, hdata1⟩ := exists_aspathPut hp hroom
  obtain rfl : s1 = s' := by
    rw [hput1] at hput
    exact (Prod.mk.inj (some.inj hput)).1
  obtain rfl : pathBytes false [seg] = bytes := append_cancel_left (hdata1.symm.trans hdata)
  -- what any reader makes of these octets
  obtain ⟨r', hr'⟩ := hparse (.full (pathBytes false [seg])) [] (by simp [Stream.full, Stream.unread])
  rw [assegmentsParse_pathBytes hp (append_nil _).symm] at hr'
  have hturns : splitTurns seg.as.length = 1 := by
    simp only [splitTurns, asSegmentMax] at *
    omega
  have hblocks : ([seg].flatMap splitSegment).map (wireSegment false) =
      [wireSegment false (splitBlock seg), wireSegment false (splitLast seg)] := by
    simp [splitSegment, hturns]
  have hnot : ¬ typesPackable (assegmentSort (wireSegment false (splitBlock seg)))
      (wireSegment false (splitLast seg)) := by
    rintro ⟨-, hseq⟩
    rw [assegmentSort_type] at hseq
    exact absurd (htype.symm.trans hseq) (by decide)
  obtain rfl : t = [assegmentSort (wireSegment false (splitBlock seg)),
      assegmentSort (wireSegment false (splitLast seg))] := by
    rw [hblocks, assegmentNormalise, normaliseFrom, if_neg hnot] at hr'
    exact (some.inj (Prod.mk.inj (some.inj hr')).1).symm
  have hrec := hres rfl
  simp only [aspathReconcileAs4, aspathCountHops_cons, aspathCountConfeds_cons, hopCount, confedCount,
    wireSegment] at hrec
  simp [reconcileTake, aspathMerge, assegmentNormalise, normaliseFrom, htype, typesPackable] at hrec

end Restore

/-- Sets and sequences, ASNs of two and four octets, and one number put in front. -/
theorem as4Restored_mixed :
    As4Restored (streamNew 4096) [assegmentWith .asSequence [70000, 3], assegmentWith .asSet [1, 70001]] [64512] := by
  refine as4Restored (normalised_cons.2 ⟨⟨by decide, fun h => by cases h⟩, by decide, normalised_cons.2
    ⟨⟨by decide, fun _ => by decide⟩, by simp, .nil⟩⟩) (by decide) (by decide) (by decide) (by decide) ?_
  intro x hx y hy _
  obtain rfl : assegmentWith .asSequence [64512] = x := mem_some_iff.1 hx
  obtain rfl : assegmentWith .asSequence [70000, 3] = y := mem_some_iff.1 hy
  decide

/-- A set of 256 numbers and nothing put in front. -/
theorem not_as4Restored_256 : ¬ As4Restored (streamNew 4096) [assegmentWith .asSet ((range 256).map ofNat)] [] := by
  have has : (assegmentWith .asSet ((range 256).map ofNat)).as = (range 256).map ofNat := assegmentWith_as (by simp)
  refine not_as4Restored_set rfl ⟨by simp [has], fun _ => ?_⟩ (by simp [has, asSegmentMax]) (by simp [has]) ?_
  · rw [has, pairwise_map]
    refine pairwise_lt_range.imp_of_mem fun {i j} hi hj hij => ?_
    have hj' := mem_range.1 hj
    rw [lt_iff_toNat_lt, toNat_ofNat', toNat_ofNat']
    omega
  · simp [pathRoom, has, asHeaderSize, Stream.writeable, Stream.endp, streamNew]

end Tarpan.Bgpd
