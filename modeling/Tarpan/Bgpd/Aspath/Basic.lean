/-
AS path segments and their normal form (bgpd/bgp_aspath.c). A path is a chain of segments; the
`length` field of a segment is an `u_short`, so a segment never holds more than 65535 numbers and
an append that would go beyond that wraps. `assegment_normalise` brings a chain into normal form;
this module defines the form, shows that normalisation reaches it and is the identity on it.
-/
import Mathlib.Algebra.GroupWithZero.Nat
import Mathlib.Data.List.Destutter
import Mathlib.Data.List.Sort

namespace Tarpan.Bgpd

open List

/-! ## Segments -/

/-- The segment types `AS_SET`, `AS_SEQUENCE`, `AS_CONFED_SEQUENCE` and `AS_CONFED_SET`. -/
inductive AsSegType
  | asSet
  | asSequence
  | asConfedSequence
  | asConfedSet
  deriving Repr, DecidableEq

namespace AsSegType

def code : AsSegType → UInt8
  | asSet => 1
  | asSequence => 2
  | asConfedSequence => 3
  | asConfedSet => 4

/-- The `switch (segh.type)` of the parser. -/
def ofCode (c : UInt8) : Option AsSegType :=
  if c = 1 then some asSet else if c = 2 then some asSequence
  else if c = 3 then some asConfedSequence else if c = 4 then some asConfedSet else none

@[simp] theorem ofCode_code (t : AsSegType) : ofCode t.code = some t := by cases t <;> rfl

/-- The types whose members are sorted and weeded. -/
def isSet : AsSegType → Bool
  | asSet | asConfedSet => true
  | asSequence | asConfedSequence => false

/-- The types `aspath_cmp_left` and `aspath_delete_confed_seq` step over. -/
def isConfed : AsSegType → Bool
  | asConfedSequence | asConfedSet => true
  | asSet | asSequence => false

end AsSegType

/-- `struct assegment`; the `u_short` length is the length of the list. -/
structure Assegment where
  type : AsSegType
  as : List UInt32
  length_lt : as.length < 65536
  deriving Repr, DecidableEq

open Assegment

variable {x y : Assegment} {l : List UInt32}

theorem Assegment.eq_of (ht : x.type = y.type) (ha : x.as = y.as) : x = y := by
  cases x; cases y; cases ht; cases ha; rfl

/-- A path is its chain of segments; the reference count lives in the table of interned paths. -/
abbrev Aspath := List Assegment

def asSegmentMax : Nat := 255
def bgpAsMax : UInt32 := 65535
def bgpAsTrans : UInt16 := 23456

/-- A segment on the numbers `l`, counted by an `u_short`. -/
def assegmentWith (type : AsSegType) (l : List UInt32) : Assegment where
  type := type
  as := l.take (l.length % 65536)
  length_lt := by
    rw [length_take]
    exact Nat.lt_of_le_of_lt (Nat.min_le_left ..) (Nat.mod_lt _ (by decide))

@[simp] theorem assegmentWith_type (t : AsSegType) (l : List UInt32) : (assegmentWith t l).type = t := rfl

theorem assegmentWith_as {t : AsSegType} (h : l.length < 65536) : (assegmentWith t l).as = l := by
  show l.take (l.length % 65536) = l
  rw [Nat.mod_eq_of_lt h, take_length]

@[simp] theorem assegmentWith_self (seg : Assegment) : assegmentWith seg.type seg.as = seg :=
  eq_of rfl (assegmentWith_as seg.length_lt)

def assegmentAppendAsns (seg : Assegment) (asnos : List UInt32) : Assegment := assegmentWith seg.type (seg.as ++ asnos)

/-- `assegment_prepend_asns`: huge prepends are not done at all. -/
def assegmentPrependAsns (seg : Assegment) (asnum : UInt32) (num : Nat) : Assegment :=
  if num = 0 then seg
  else if num ≥ asSegmentMax then seg
  else assegmentWith seg.type (List.replicate num asnum ++ seg.as)

@[simp] theorem assegmentAppendAsns_type (seg : Assegment) (l : List UInt32) :
    (assegmentAppendAsns seg l).type = seg.type := rfl

variable {seg : Assegment}

theorem assegmentAppendAsns_as (h : seg.as.length + l.length < 65536) : (assegmentAppendAsns seg l).as = seg.as ++ l :=
  assegmentWith_as (by simpa using h)

/-- `ASSEGMENT_TYPES_PACKABLE`. -/
def typesPackable (x y : Assegment) : Prop := x.type = y.type ∧ x.type = .asSequence

instance (x y : Assegment) : Decidable (typesPackable x y) := inferInstanceAs (Decidable (_ ∧ _))

/-- `ASSEGMENTS_PACKABLE`. -/
def segmentsPackable (x y : Assegment) : Prop := typesPackable x y ∧ x.as.length + y.as.length ≤ asSegmentMax

instance (x y : Assegment) : Decidable (segmentsPackable x y) := inferInstanceAs (Decidable (_ ∧ _))

/-! ## Normalisation -/

instance uint32LeTotal : Std.Total (α := UInt32) (· ≤ ·) := ⟨UInt32.le_total⟩
instance uint32LeTrans : IsTrans UInt32 (· ≤ ·) := ⟨fun _ _ _ => UInt32.le_trans⟩

/-- The sort and the "weed out dupes" loop: a number is dropped when it repeats the last one kept. -/
def sortWeed (l : List UInt32) : List UInt32 := (l.insertionSort (· ≤ ·)).destutter (· ≠ ·)

theorem sortWeed_length_le (l : List UInt32) : (sortWeed l).length ≤ l.length :=
  (destutter_sublist _ _).length_le.trans_eq (length_insertionSort _ _)

/-- The pinned segment as `assegment_normalise` leaves it before it looks ahead. -/
def assegmentSort (seg : Assegment) : Assegment :=
  if seg.type.isSet then
    { seg with as := sortWeed seg.as
               length_lt := (sortWeed_length_le seg.as).trans_lt seg.length_lt }
  else seg

/-- The look-ahead loop of `assegment_normalise`, from the pinned segment on. -/
def normaliseFrom (pin : Assegment) : Aspath → Aspath
  | [] => [pin]
  | seg :: rest =>
    if typesPackable pin seg then normaliseFrom (assegmentAppendAsns pin seg.as) rest
    else pin :: normaliseFrom (assegmentSort seg) rest

def assegmentNormalise : Aspath → Aspath
  | [] => []
  | seg :: rest => normaliseFrom (assegmentSort seg) rest

/-! ## Measures and comparison -/

/-- What a segment adds to `aspath_count_hops`: a set is one hop, a confederation segment none. -/
def Assegment.hopCount (seg : Assegment) : Nat :=
  match seg.type with
  | .asSequence => seg.as.length
  | .asSet => 1
  | .asConfedSequence | .asConfedSet => 0

/-- What a segment adds to `aspath_count_confeds`. -/
def Assegment.confedCount (seg : Assegment) : Nat :=
  match seg.type with
  | .asConfedSequence => seg.as.length
  | .asConfedSet => 1
  | .asSequence | .asSet => 0

def aspathCountHops (aspath : Aspath) : Nat := (aspath.map hopCount).sum
def aspathCountConfeds (aspath : Aspath) : Nat := (aspath.map confedCount).sum

/-- `assegment_count_asns` from index 0. -/
def assegmentCountAsns (aspath : Aspath) : Nat := (aspath.map fun seg => seg.as.length).sum

/-- `aspath_cmp`: the two chains agree segment by segment and end together. -/
def aspathCmp : Aspath → Aspath → Bool
  | [], [] => true
  | seg1 :: rest1, seg2 :: rest2 =>
    if seg1.type ≠ seg2.type then false
    else if seg1.as.length ≠ seg2.as.length then false
    else if seg1.as ≠ seg2.as then false
    else aspathCmp rest1 rest2
  | _, _ => false

theorem aspathCmp_iff : ∀ {p q : Aspath}, aspathCmp p q = true ↔ p = q
  | [], [] => by simp [aspathCmp]
  | [], _ :: _ => by simp [aspathCmp]
  | _ :: _, [] => by simp [aspathCmp]
  | x :: p, y :: q => by
    simp only [aspathCmp]
    split_ifs with ht hl ha
    · simpa using fun h : x = y => absurd (congrArg type h) ht
    · simpa using fun h : x = y => absurd (congrArg (·.as.length) h) hl
    · simpa using fun h : x = y => absurd (congrArg as h) ha
    · rw [aspathCmp_iff]
      simp only [not_not] at ht ha
      simp [eq_of ht ha]

/-! ## The normal form -/

/-- A segment in normal form: it is not empty, and the members of a set strictly increase. -/
structure Assegment.WellFormed (seg : Assegment) : Prop where
  nonempty : seg.as ≠ []
  sorted : seg.type.isSet = true → seg.as.Pairwise (· < ·)

/-- A path in normal form: well-formed segments, no two neighbours both `AS_SEQUENCE`. -/
structure Normalised (p : Aspath) : Prop where
  segs : ∀ seg ∈ p, seg.WellFormed
  unpacked : p.IsChain fun x y => ¬ typesPackable x y

section SortWeed
variable {l : List UInt32}

instance uint32LeAntisymm : Std.Antisymm (α := UInt32) (· ≤ ·) := ⟨fun _ _ => UInt32.le_antisymm⟩

theorem sortWeed_eq_dedup (l : List UInt32) : sortWeed l = (l.insertionSort (· ≤ ·)).dedup :=
  (pairwise_insertionSort _ l).destutter_eq_dedup

@[simp] theorem mem_sortWeed {a : UInt32} : a ∈ sortWeed l ↔ a ∈ l := by
  rw [sortWeed_eq_dedup, mem_dedup, mem_insertionSort]

@[simp] theorem sortWeed_eq_nil : sortWeed l = [] ↔ l = [] := by
  simp [eq_nil_iff_forall_not_mem]

theorem sortWeed_pairwise (l : List UInt32) : (sortWeed l).Pairwise (· < ·) := by
  have hle : (sortWeed l).Pairwise (· ≤ ·) := (pairwise_insertionSort _ l).sublist (destutter_sublist _ _)
  have hne : (sortWeed l).Nodup := by
    rw [sortWeed_eq_dedup]
    exact nodup_dedup _
  exact (hle.and hne).imp fun h => UInt32.lt_of_le_of_ne h.1 h.2

theorem sortWeed_of_pairwise (h : l.Pairwise (· < ·)) : sortWeed l = l := by
  have hsort := (h.imp UInt32.le_of_lt).insertionSort_eq
  rw [sortWeed_eq_dedup, hsort]
  exact dedup_eq_self.2 (h.imp UInt32.ne_of_lt)

end SortWeed

@[simp] theorem assegmentSort_type (seg : Assegment) : (assegmentSort seg).type = seg.type := by
  unfold assegmentSort
  split <;> rfl

theorem assegmentSort_length_le (seg : Assegment) : (assegmentSort seg).as.length ≤ seg.as.length := by
  unfold assegmentSort
  split
  · exact sortWeed_length_le _
  · exact le_rfl

theorem assegmentSort_as_ne_nil (h : seg.as ≠ []) : (assegmentSort seg).as ≠ [] := by
  unfold assegmentSort
  split
  · simpa using h
  · exact h

theorem assegmentSort_wellFormed (h : seg.as ≠ []) : (assegmentSort seg).WellFormed := by
  refine ⟨assegmentSort_as_ne_nil h, fun hset => ?_⟩
  rw [assegmentSort_type] at hset
  simpa [assegmentSort, hset] using sortWeed_pairwise seg.as

theorem assegmentSort_of_sequence (h : seg.type.isSet = false) : assegmentSort seg = seg := by
  simp [assegmentSort, h]

theorem Assegment.WellFormed.sort_eq (h : seg.WellFormed) : assegmentSort seg = seg := by
  cases hset : seg.type.isSet with
  | false => exact assegmentSort_of_sequence hset
  | true =>
    apply eq_of (assegmentSort_type seg)
    simpa [assegmentSort, hset] using sortWeed_of_pairwise (h.sorted hset)

theorem typesPackable.isSet_left (h : typesPackable x y) : x.type.isSet = false := by
  rw [h.2]; rfl

theorem typesPackable.isSet_right (h : typesPackable x y) : y.type.isSet = false := by
  rw [← h.1, h.2]; rfl

/-! ## Normalisation reaches the normal form -/

@[simp] theorem assegmentCountAsns_nil : assegmentCountAsns [] = 0 := rfl

@[simp] theorem assegmentCountAsns_cons (seg : Assegment) (p : Aspath) :
    assegmentCountAsns (seg :: p) = seg.as.length + assegmentCountAsns p := by
  simp [assegmentCountAsns]

@[simp] theorem aspathCountHops_nil : aspathCountHops [] = 0 := rfl

@[simp] theorem aspathCountHops_cons (seg : Assegment) (p : Aspath) :
    aspathCountHops (seg :: p) = seg.hopCount + aspathCountHops p := by
  simp [aspathCountHops]

@[simp] theorem aspathCountConfeds_nil : aspathCountConfeds [] = 0 := rfl

@[simp] theorem aspathCountConfeds_cons (seg : Assegment) (p : Aspath) :
    aspathCountConfeds (seg :: p) = seg.confedCount + aspathCountConfeds p := by
  simp [aspathCountConfeds]

theorem Normalised.nil : Normalised [] := ⟨by simp, .nil⟩

variable {p : Aspath}

theorem normalised_cons : Normalised (x :: p) ↔ x.WellFormed ∧ (∀ y ∈ p.head?, ¬ typesPackable x y) ∧ Normalised p := by
  constructor
  · rintro ⟨hs, hc⟩
    rw [isChain_cons] at hc
    exact ⟨hs x (by simp), hc.1, fun y hy => hs y (by simp [hy]), hc.2⟩
  · rintro ⟨hx, hh, hp⟩
    exact ⟨by simpa using ⟨hx, hp.segs⟩, isChain_cons.2 ⟨hh, hp.unpacked⟩⟩

theorem normaliseFrom_type (pin : Assegment) :
    ∀ rest : Aspath, ∃ seg p, normaliseFrom pin rest = seg :: p ∧ seg.type = pin.type
  | [] => ⟨pin, [], rfl, rfl⟩
  | seg :: rest => by
    unfold normaliseFrom
    split
    · exact normaliseFrom_type (assegmentAppendAsns pin seg.as) rest
    · exact ⟨pin, _, rfl, rfl⟩

/-- The loop invariant of the look-ahead: the pinned segment is well formed and whatever it still
takes in fits its length field. -/
theorem normaliseFrom_normalised : ∀ {rest : Aspath} {pin : Assegment}, pin.WellFormed →
    (∀ seg ∈ rest, seg.as ≠ []) → pin.as.length + assegmentCountAsns rest < 65536 → Normalised (normaliseFrom pin rest)
  | [], pin, hpin, _, _ => normalised_cons.2 ⟨hpin, by simp, .nil⟩
  | seg :: rest, pin, hpin, hrest, hfit => by
    rw [assegmentCountAsns_cons] at hfit
    have hrest' : ∀ s ∈ rest, s.as ≠ [] := fun s hs => hrest s (by simp [hs])
    unfold normaliseFrom
    split_ifs with hpack
    · have has : (assegmentAppendAsns pin seg.as).as = pin.as ++ seg.as := assegmentAppendAsns_as (by omega)
      refine normaliseFrom_normalised ⟨?_, fun hset => ?_⟩ hrest' ?_
      · simp [has, hpin.nonempty]
      · rw [assegmentAppendAsns_type, hpack.isSet_left] at hset
        cases hset
      · rw [has, length_append]
        omega
    · have hlen := assegmentSort_length_le seg
      obtain ⟨head, p, heq, htype⟩ := normaliseFrom_type (assegmentSort seg) rest
      have hrec := normaliseFrom_normalised (assegmentSort_wellFormed (hrest seg (by simp))) hrest' (by omega)
      refine normalised_cons.2 ⟨hpin, fun y hy => ?_, hrec⟩
      rw [heq, List.head?_cons, Option.mem_some_iff] at hy
      subst hy
      rw [assegmentSort_type] at htype
      exact fun h => hpack ⟨h.1.trans htype, h.2⟩

/-- A chain of non-empty segments that fits one length field is brought into normal form. -/
theorem assegmentNormalise_normalised (hp : ∀ seg ∈ p, seg.as ≠ [])
    (hfit : assegmentCountAsns p < 65536) : Normalised (assegmentNormalise p) := by
  cases p with
  | nil => exact .nil
  | cons seg rest =>
    rw [assegmentCountAsns_cons] at hfit
    have hlen := assegmentSort_length_le seg
    exact normaliseFrom_normalised (assegmentSort_wellFormed (hp seg (by simp)))
      (fun s hs => hp s (by simp [hs])) (by omega)

theorem normaliseFrom_eq_cons : ∀ {rest : Aspath} {pin : Assegment},
    (∀ y ∈ rest.head?, ¬ typesPackable pin y) → Normalised rest → normaliseFrom pin rest = pin :: rest
  | [], _, _, _ => rfl
  | seg :: rest, pin, hhead, hrest => by
    obtain ⟨hseg, hhead', hrest'⟩ := normalised_cons.1 hrest
    rw [normaliseFrom, if_neg (hhead seg rfl), hseg.sort_eq, normaliseFrom_eq_cons hhead' hrest']

theorem Normalised.normalise_eq (h : Normalised p) : assegmentNormalise p = p := by
  cases p with
  | nil => rfl
  | cons seg rest =>
    obtain ⟨hseg, hhead, hrest⟩ := normalised_cons.1 h
    rw [assegmentNormalise, hseg.sort_eq, normaliseFrom_eq_cons hhead hrest]

/-! ## Joining two paths -/

/-- `a` followed by `b`, with the two segments at the joint packed into one where they can be. -/
def joinSegments : Aspath → Aspath → Aspath
  | [], b => b
  | [x], y :: b => if typesPackable x y then assegmentAppendAsns x y.as :: b else x :: y :: b
  | [x], [] => [x]
  | x :: x' :: a, b => x :: joinSegments (x' :: a) b

theorem joinSegments_cons {x' : Assegment} {a b : Aspath} :
    joinSegments (x :: x' :: a) b = x :: joinSegments (x' :: a) b := by
  cases b <;> rfl

@[simp] theorem joinSegments_nil_right : ∀ a : Aspath, joinSegments a [] = a
  | [] => rfl
  | [_] => rfl
  | x :: x' :: a => by rw [joinSegments_cons, joinSegments_nil_right (x' :: a)]

theorem normaliseFrom_append : ∀ {a : Aspath} {pin : Assegment} {b : Aspath},
    (∀ y ∈ a.head?, ¬ typesPackable pin y) → Normalised a → Normalised b →
    normaliseFrom pin (a ++ b) = joinSegments (pin :: a) b
  | [], pin, [], _, _, _ => rfl
  | [], pin, y :: b, _, _, hb => by
    obtain ⟨hy, hhead, hb'⟩ := normalised_cons.1 hb
    show (if _ then _ else _) = (if _ then _ else _)
    split_ifs with hpack
    · -- the packed segment is an `AS_SEQUENCE` like `y`, so it stops where `y` did
      refine normaliseFrom_eq_cons (fun z hz h => hhead z hz ?_) hb'
      exact ⟨hpack.1.symm.trans h.1, hpack.1.symm.trans hpack.2⟩
    · rw [hy.sort_eq, normaliseFrom_eq_cons hhead hb']
  | x :: a, pin, b, hhead, ha, hb => by
    obtain ⟨hx, hhead', ha'⟩ := normalised_cons.1 ha
    rw [cons_append, normaliseFrom, if_neg (hhead x rfl), hx.sort_eq,
      normaliseFrom_append hhead' ha' hb, joinSegments_cons]

/-- Normalising the concatenation of two normal forms only touches the joint. -/
theorem assegmentNormalise_append {a b : Aspath} (ha : Normalised a) (hb : Normalised b) :
    assegmentNormalise (a ++ b) = joinSegments a b := by
  cases a with
  | nil => exact hb.normalise_eq
  | cons x a =>
    obtain ⟨hx, hhead, ha'⟩ := normalised_cons.1 ha
    rw [cons_append, assegmentNormalise, hx.sort_eq, normaliseFrom_append hhead ha' hb]

/-- The packing at the joint stays within one length field. -/
def JointFits (a b : Aspath) : Prop :=
  ∀ x ∈ a.getLast?, ∀ y ∈ b.head?, typesPackable x y → x.as.length + y.as.length < 65536

end Tarpan.Bgpd
