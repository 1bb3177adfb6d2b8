/-
The operations of bgpd/bgp_aspath.c that build paths from paths, and what each of them does to the
normal form. Aggregation and the deletion of leading confederation segments always keep it; the
others keep it under a condition on their arguments that is stated with each of them.
-/
import Mathlib.Data.Finset.Card
import Tarpan.Bgpd.Aspath.Reconcile

namespace Tarpan.Bgpd

open Lib List Option

/-! ## The model -/

/-- `aspath_parse` up to the lookup in the table of interned paths. -/
def aspathParse (s : Stream) (length : Nat) (use32bit : Bool) : Option (Option Aspath × Stream) :=
  if length % 2 ≠ 0 then some (none, s) else assegmentsParse s length use32bit

/-- The number of leading positions at which the two lists agree. -/
def matchLength : List UInt32 → List UInt32 → Nat
  | a :: as, b :: bs => if a = b then matchLength as bs + 1 else 0
  | _, _ => 0

/-- The loop of `aspath_aggregate` over the common leading segments: the segments copied, the last
`match`, and where the two chains stand when the loop ends. -/
def aggregateLead : Aspath → Aspath → Nat → Aspath × Nat × Aspath × Aspath
  | seg1 :: rest1, seg2 :: rest2, m =>
    if seg1.type ≠ seg2.type then ([], m, seg1 :: rest1, seg2 :: rest2)
    else
      let m := matchLength seg1.as seg2.as
      let lead := if m = 0 then [] else [assegmentWith seg1.type (seg1.as.take m)]
      if m ≠ min seg1.as.length seg2.as.length ∨ m ≠ seg1.as.length ∨ seg1.as.length ≠ seg2.as.length then
        (lead, m, seg1 :: rest1, seg2 :: rest2)
      else
        let (leads, m, chain1, chain2) := aggregateLead rest1 rest2 m
        (lead ++ leads, m, chain1, chain2)
  | chain1, chain2, m => ([], m, chain1, chain2)

/-- `aspath_aggregate_as_set_add` on the members so far; at 65535 of them the length wraps to 0 and
the write goes before the array. -/
def aggregateAsSetAdd (asset : List UInt32) (as : UInt32) : Option (List UInt32) :=
  if as ∈ asset then some asset
  else if asset.length + 1 < 65536 then some (asset ++ [as])
  else none

/-- The numbers of a chain from index `start` of its first segment on. -/
def asnsFrom (start : Nat) : Aspath → List UInt32
  | [] => []
  | seg :: rest => seg.as.drop start ++ rest.flatMap (·.as)

def aspathAggregate (as1 as2 : Aspath) : Option Aspath :=
  let (lead, m, chain1, chain2) := aggregateLead as1 as2 0
  ((asnsFrom m chain1 ++ asnsFrom m chain2).foldlM aggregateAsSetAdd []).map fun asset =>
    assegmentNormalise (lead ++ if asset = [] then [] else [assegmentWith .asSet asset])

def aspathDeleteConfedSeq : Aspath → Aspath
  | [] => []
  | seg :: rest =>
    if seg.type ≠ .asConfedSequence then seg :: rest else (seg :: rest).dropWhile (·.type.isConfed)

/-- `aspath_prepend`. When the leading confederation segments of `as2` are deleted, `seg2` is left
pointing at a freed segment; `assegment_free` has overwritten its type with 0xfe, so the types
differ and the chains are merged as they are. -/
def aspathPrepend (as1 as2 : Aspath) : Option Aspath :=
  match as1.getLast?, as2 with
  | _, [] => some as1
  | none, _ => some as2
  | some seg1, seg2 :: rest2 =>
    if seg1.type = .asSequence ∧ seg2.type = .asConfedSequence then aspathMerge as1 (aspathDeleteConfedSeq as2)
    else if seg1.type ≠ seg2.type then aspathMerge as1 as2
    else if seg1.type = .asSequence then
      some (as1.dropLast ++ assegmentAppendAsns seg1 seg2.as :: rest2)
    else aspathMerge as1 as2

/-- The numbers of `srcseg` that no segment of `excludeList` lists. -/
def keptAsns (excludeList : Aspath) (srcseg : Assegment) : List UInt32 :=
  srcseg.as.filter fun as => ! excludeList.any fun exclseg => exclseg.as.contains as

/-- `aspath_filter_exclude`: segments that lose all their numbers are left out. -/
def aspathFilterExclude (source excludeList : Aspath) : Aspath :=
  source.filterMap fun srcseg =>
    if keptAsns excludeList srcseg = [] then none
    else some (assegmentWith srcseg.type (keptAsns excludeList srcseg))

/-- `aspath_add_asns`. A new segment of 65536 numbers or more is allocated for the wrapped length
and then written beyond its end; a count that is negative as an `int` cannot be allocated. -/
def aspathAddAsns (aspath : Aspath) (asno : UInt32) (type : AsSegType) (num : Nat) : Option Aspath :=
  match aspath with
  | seg :: rest =>
    if seg.type = type then
      if num < 2 ^ 31 then some (assegmentPrependAsns seg asno num :: rest) else none
    else if num < 65536 then
      some (assegmentWith type (replicate num asno) ::
        if seg.as.length = 0 then rest else seg :: rest)
    else none
  | [] => if num < 65536 then some [assegmentWith type (replicate num asno)] else none

def aspathAddSeqN (aspath : Aspath) (asno : UInt32) (num : Nat) : Option Aspath :=
  aspathAddAsns aspath asno .asSequence num
def aspathAddSeq (aspath : Aspath) (asno : UInt32) : Option Aspath := aspathAddAsns aspath asno .asSequence 1
def aspathAddConfedSeq (aspath : Aspath) (asno : UInt32) : Option Aspath :=
  aspathAddAsns aspath asno .asConfedSequence 1

/-- `aspath_cmp_left`: both first non-confederation segments are sequences with the same first AS. -/
def aspathCmpLeft (aspath1 aspath2 : Aspath) : Bool :=
  match aspath1.dropWhile (·.type.isConfed), aspath2.dropWhile (·.type.isConfed) with
  | seg1 :: _, seg2 :: _ =>
    seg1.type = .asSequence && seg2.type = .asSequence && seg1.as.head? = seg2.as.head?
  | _, _ => false

def aspathCmpLeftConfed (aspath1 aspath2 : Aspath) : Bool :=
  match aspath1, aspath2 with
  | seg1 :: _, seg2 :: _ =>
    seg1.type = .asConfedSequence && seg2.type = .asConfedSequence && seg1.as.head? = seg2.as.head?
  | _, _ => false

/-! ## The canonical form -/

/-- Neighbours that stay apart: two segments of one type follow each other only as sets. -/
def Apart (x y : Assegment) : Prop := x.type = y.type → x.type.isSet = true

instance (x y : Assegment) : Decidable (Apart x y) := inferInstanceAs (Decidable (_ → _))

/-- The normal form in which a sequence of hops has one representation: besides `AS_SEQUENCE`s, two
`AS_CONFED_SEQUENCE`s do not follow each other either. -/
structure Canonical (p : Aspath) : Prop where
  segs : ∀ seg ∈ p, seg.WellFormed
  apart : p.IsChain Apart

variable {x y seg : Assegment}

theorem Apart.not_packable (h : Apart x y) : ¬ typesPackable x y := by
  rintro ⟨htype, hseq⟩
  have := h htype
  rw [hseq] at this
  cases this

theorem Apart.congr {x' y' : Assegment} (h : Apart x y) (hx : x'.type = x.type) (hy : y'.type = y.type) :
    Apart x' y' := by
  intro htype
  rw [hx] at htype ⊢
  exact h (htype.trans hy)

theorem apart_iff : Apart x y ↔ ¬ typesPackable x y ∧ ¬ (x.type = .asConfedSequence ∧ y.type = .asConfedSequence) := by
  unfold Apart typesPackable
  cases x.type <;> cases y.type <;> simp [AsSegType.isSet]

variable {p : Aspath}

theorem Canonical.normalised (h : Canonical p) : Normalised p := ⟨h.segs, h.apart.imp fun _ _ hxy => hxy.not_packable⟩
theorem Canonical.nil : Canonical [] := ⟨by simp, .nil⟩

theorem canonical_cons : Canonical (x :: p) ↔ x.WellFormed ∧ (∀ y ∈ p.head?, Apart x y) ∧ Canonical p := by
  constructor
  · rintro ⟨hs, hc⟩
    rw [isChain_cons] at hc
    exact ⟨hs x (by simp), hc.1, fun y hy => hs y (by simp [hy]), hc.2⟩
  · rintro ⟨hx, hh, hp⟩
    exact ⟨by simpa using ⟨hx, hp.segs⟩, isChain_cons.2 ⟨hh, hp.apart⟩⟩

theorem Canonical.tail (h : Canonical (x :: p)) : Canonical p := (canonical_cons.1 h).2.2

theorem Canonical.suffix : ∀ {p q : Aspath}, q <:+ p → Canonical p → Canonical q := by
  rintro p q ⟨pre, rfl⟩ hp
  exact ⟨fun seg hseg => hp.segs seg (by simp [hseg]), hp.apart.right_of_append⟩

variable {a b : Aspath}

theorem canonical_append (ha : Canonical a) (hb : Canonical b) :
    Canonical (a ++ b) ↔ ∀ x ∈ a.getLast?, ∀ y ∈ b.head?, Apart x y := by
  constructor
  · intro h
    exact (isChain_append.1 h.apart).2.2
  · intro h
    refine ⟨fun seg hseg => ?_, isChain_append.2 ⟨ha.apart, hb.apart, h⟩⟩
    rcases mem_append.1 hseg with hseg | hseg
    · exact ha.segs seg hseg
    · exact hb.segs seg hseg

variable {type : AsSegType}

theorem wellFormed_sequence {l : List UInt32} (htype : type.isSet = false) :
    (assegmentWith type l).WellFormed ↔ l.length % 65536 ≠ 0 := by
  have hlen : (assegmentWith type l).as.length = l.length % 65536 := by
    show (l.take (l.length % 65536)).length = l.length % 65536
    rw [length_take]
    exact Nat.min_eq_left (Nat.mod_le ..)
  constructor
  · intro h h0
    exact h.nonempty (length_eq_zero_iff.1 (hlen.trans h0))
  · intro h
    refine ⟨fun hnil => h ?_, fun hset => ?_⟩
    · rw [← hlen, hnil, length_nil]
    · rw [assegmentWith_type, htype] at hset
      cases hset

/-! ## Joining, prepending and deleting -/

/-- The joint of `a` and `b` can be packed or left as it is without losing the canonical form. -/
def JointKeeps (a b : Aspath) : Prop :=
  ∀ x ∈ a.getLast?, ∀ y ∈ b.head?, (typesPackable x y → (x.as.length + y.as.length) % 65536 ≠ 0) ∧
    ¬ (x.type = .asConfedSequence ∧ y.type = .asConfedSequence)

theorem joinSegments_concat (x y : Assegment) (b : Aspath) : ∀ a : Aspath, joinSegments (a ++ [x]) (y :: b) =
      if typesPackable x y then a ++ assegmentAppendAsns x y.as :: b else a ++ x :: y :: b
  | [] => rfl
  | [z] => by
    show z :: joinSegments [x] (y :: b) = _
    rw [joinSegments]
    split <;> rfl
  | z :: z' :: a => by
    have ih := joinSegments_concat x y b (z' :: a)
    rw [cons_append, cons_append, joinSegments_cons, ← cons_append, ih]
    split <;> rfl

/-- Packing the joint is fine unless the packed length wraps to nothing. -/
theorem canonical_packed (ha : Canonical (a ++ [x])) (hb : Canonical (y :: b)) (hpack : typesPackable x y) :
    Canonical (a ++ assegmentAppendAsns x y.as :: b) ↔ (x.as.length + y.as.length) % 65536 ≠ 0 := by
  have hwf : (assegmentAppendAsns x y.as).WellFormed ↔ (x.as.length + y.as.length) % 65536 ≠ 0 := by
    rw [assegmentAppendAsns, wellFormed_sequence hpack.isSet_left, length_append]
  obtain ⟨-, hhead, hb'⟩ := canonical_cons.1 hb
  have ha' : Canonical a := ⟨fun seg h => ha.segs seg (by simp [h]), ha.apart.left_of_append⟩
  constructor
  · intro h
    exact hwf.1 (h.segs _ (by simp))
  · intro h
    have hnew : Canonical (assegmentAppendAsns x y.as :: b) :=
      canonical_cons.2 ⟨hwf.2 h, fun z hz => (hhead z hz).congr hpack.1 rfl, hb'⟩
    refine (canonical_append ha' hnew).2 fun z hz w hw => ?_
    obtain rfl : assegmentAppendAsns x y.as = w := mem_some_iff.1 hw
    exact ((isChain_append.1 ha.apart).2.2 z hz x rfl).congr rfl rfl

theorem joinSegments_canonical_iff (ha : Canonical a) (hb : Canonical b) :
    Canonical (joinSegments a b) ↔ JointKeeps a b := by
  rcases eq_nil_or_concat a with rfl | ⟨a, x, rfl⟩
  · simpa [JointKeeps, joinSegments] using hb
  cases b with
  | nil => simpa [JointKeeps] using ha
  | cons y b =>
    rw [concat_eq_append] at ha ⊢
    have hlast : (a ++ [x]).getLast? = some x := by simp
    simp only [JointKeeps, hlast, head?_cons, mem_some_iff, forall_eq', joinSegments_concat]
    split_ifs with hpack
    · rw [canonical_packed ha hb hpack]
      constructor
      · intro h
        refine ⟨fun _ => h, fun hc => ?_⟩
        exact absurd (hpack.2.symm.trans hc.1) (by decide)
      · intro h
        exact h.1 hpack
    · rw [show a ++ x :: y :: b = (a ++ [x]) ++ y :: b by simp, canonical_append ha hb]
      simp only [hlast, head?_cons, mem_some_iff, forall_eq', apart_iff]
      constructor
      · intro h
        exact ⟨fun h' => absurd h' hpack, h.2⟩
      · intro h
        exact ⟨hpack, h.2⟩

theorem aspathDeleteConfedSeq_canonical (h : Canonical p) : Canonical (aspathDeleteConfedSeq p) := by
  cases p with
  | nil => exact h
  | cons seg p =>
    rw [aspathDeleteConfedSeq]
    split
    · exact h
    · exact h.suffix (dropWhile_suffix _)

/-- When `aspath_prepend` keeps the canonical form. The second condition fails where the deleted
confederation segments stood between two `AS_SEQUENCE`s. -/
structure PrependKeeps (as1 as2 : Aspath) : Prop where
  joint : JointKeeps as1 as2
  deleted : ∀ seg1 ∈ as1.getLast?, ∀ seg2 ∈ as2.head?, seg1.type = .asSequence →
    seg2.type = .asConfedSequence → ∀ seg ∈ (as2.dropWhile (·.type.isConfed)).head?, seg.type ≠ .asSequence

theorem aspathPrepend_canonical_iff {as1 as2 : Aspath} (h1 : Canonical as1) (h2 : Canonical as2) :
    (∃ p, aspathPrepend as1 as2 = some p ∧ Canonical p) ↔ PrependKeeps as1 as2 := by
  rcases eq_nil_or_concat as1 with rfl | ⟨a, seg1, rfl⟩
  · have hprep : aspathPrepend [] as2 = some as2 := by cases as2 <;> rfl
    simp only [hprep, some.injEq, exists_eq_left']
    exact ⟨fun _ => ⟨by simp [JointKeeps], by simp⟩, fun _ => h2⟩
  rw [concat_eq_append] at h1 ⊢
  have hlast : (a ++ [seg1]).getLast? = some seg1 := by simp
  have hmerge : ∀ q, aspathMerge (a ++ [seg1]) q = some (a ++ [seg1] ++ q) := by simp [aspathMerge]
  cases as2 with
  | nil =>
    simp only [aspathPrepend, some.injEq, exists_eq_left']
    exact ⟨fun _ => ⟨by simp [JointKeeps], by simp⟩, fun _ => h1⟩
  | cons seg2 rest2 =>
    have hjoin := joinSegments_canonical_iff h1 h2
    rw [joinSegments_concat] at hjoin
    simp only [aspathPrepend, hlast]
    by_cases hdel : seg1.type = .asSequence ∧ seg2.type = .asConfedSequence
    · -- the chains are merged behind the deletion
      obtain ⟨hseq, hconf⟩ := hdel
      have hsuf : Canonical ((seg2 :: rest2).dropWhile (·.type.isConfed)) := h2.suffix (dropWhile_suffix _)
      rw [if_pos ⟨hseq, hconf⟩, aspathDeleteConfedSeq, if_neg (not_not.2 hconf), hmerge]
      simp only [some.injEq, exists_eq_left']
      rw [canonical_append h1 hsuf, hlast]
      constructor
      · intro h
        constructor
        · rintro x hx y hy
          obtain rfl : seg1 = x := by simpa using hx
          obtain rfl : seg2 = y := by simpa using hy
          simp [typesPackable, hseq, hconf]
        · rintro x hx y hy - - seg hseg htype
          have := h seg1 rfl seg hseg (hseq.trans htype.symm)
          rw [hseq] at this
          cases this
      · rintro ⟨-, h⟩ x hx y hy htype
        obtain rfl : seg1 = x := mem_some_iff.1 hx
        exact absurd (htype.symm.trans hseq) (h seg1 hlast seg2 rfl hseq hconf y hy)
    · -- nothing is deleted, and the result is the join
      have hres : (if seg1.type ≠ seg2.type then aspathMerge (a ++ [seg1]) (seg2 :: rest2)
          else if seg1.type = .asSequence then
            some ((a ++ [seg1]).dropLast ++ assegmentAppendAsns seg1 seg2.as :: rest2)
          else aspathMerge (a ++ [seg1]) (seg2 :: rest2)) =
          some (if typesPackable seg1 seg2 then a ++ assegmentAppendAsns seg1 seg2.as :: rest2
            else a ++ seg1 :: seg2 :: rest2) := by
        rw [hmerge]
        by_cases htype : seg1.type = seg2.type
        · by_cases hseq : seg1.type = .asSequence <;> simp [typesPackable, htype, htype ▸ hseq]
        · simp [typesPackable, htype]
      rw [if_neg hdel, hres]
      simp only [some.injEq, exists_eq_left', hjoin]
      constructor
      · intro h
        refine ⟨h, ?_⟩
        rintro x hx y hy hseq hconf
        obtain rfl : seg1 = x := by simpa using hx
        obtain rfl : seg2 = y := by simpa using hy
        exact absurd ⟨hseq, hconf⟩ hdel
      · exact fun h => h.joint

-- Confederation segments deleted from between two sequences have the same effect.
example : aspathPrepend [assegmentWith .asSequence [1]]
    [assegmentWith .asConfedSequence [64512], assegmentWith .asSequence [3]] =
      some [assegmentWith .asSequence [1], assegmentWith .asSequence [3]] := by decide

/-! ## Filtering and adding -/

/-- When `aspath_filter_exclude` keeps the canonical form: the segments with a number left over
still stay apart. -/
def FilterKeeps (source excludeList : Aspath) : Prop :=
  (source.filter fun seg => keptAsns excludeList seg ≠ []).IsChain Apart

theorem aspathFilterExclude_eq (source excludeList : Aspath) : aspathFilterExclude source excludeList =
      (source.filter fun seg => keptAsns excludeList seg ≠ []).map
        fun seg => assegmentWith seg.type (keptAsns excludeList seg) := by
  induction source with
  | nil => rfl
  | cons seg source ih =>
    unfold aspathFilterExclude at ih ⊢
    by_cases h : keptAsns excludeList seg = [] <;> simp [h, ih]

theorem aspathFilterExclude_canonical_iff {source : Aspath} (h : Canonical source) (excludeList : Aspath) :
    Canonical (aspathFilterExclude source excludeList) ↔ FilterKeeps source excludeList := by
  have hchain : (aspathFilterExclude source excludeList).IsChain Apart ↔ FilterKeeps source excludeList := by
    rw [aspathFilterExclude_eq, isChain_map]
    rfl
  constructor
  · intro hres
    exact hchain.1 hres.apart
  · intro hkeep
    refine ⟨?_, hchain.2 hkeep⟩
    rw [aspathFilterExclude_eq]
    intro x hx
    obtain ⟨seg, hseg, rfl⟩ := mem_map.1 hx
    obtain ⟨hmem, hkept⟩ := mem_filter.1 hseg
    have hsub : (keptAsns excludeList seg).Sublist seg.as := filter_sublist
    have has : (assegmentWith seg.type (keptAsns excludeList seg)).as = keptAsns excludeList seg :=
      assegmentWith_as (hsub.length_le.trans_lt seg.length_lt)
    refine ⟨?_, fun hset => ?_⟩
    · rw [has]
      simpa using hkept
    · rw [has]
      exact ((h.segs seg hmem).sorted hset).sublist hsub

/-- When adding `num` copies of a number in front keeps the canonical form: onto a segment of the
type, unless the length wraps to nothing; as a segment of its own, unless it is empty. -/
def AddKeeps (aspath : Aspath) (type : AsSegType) (num : Nat) : Prop :=
  match aspath with
  | seg :: _ =>
    if seg.type = type then
      num < 2 ^ 31 ∧ (num = 0 ∨ asSegmentMax ≤ num ∨ (num + seg.as.length) % 65536 ≠ 0)
    else 0 < num ∧ num < 65536
  | [] => 0 < num ∧ num < 65536

instance (p : Aspath) (type : AsSegType) (num : Nat) : Decidable (AddKeeps p type num) := by
  unfold AddKeeps
  split <;> infer_instance

theorem wellFormed_replicate {asno : UInt32} {num : Nat} (htype : type.isSet = false)
    (hnum : num < 65536) : (assegmentWith type (replicate num asno)).WellFormed ↔ 0 < num := by
  rw [wellFormed_sequence htype, length_replicate, Nat.mod_eq_of_lt hnum, Nat.pos_iff_ne_zero]

section
variable (asno : UInt32) (num : Nat)

theorem assegmentPrependAsns_wellFormed (hseg : seg.WellFormed)
    (htype : seg.type.isSet = false) : (assegmentPrependAsns seg asno num).WellFormed ↔
      num = 0 ∨ asSegmentMax ≤ num ∨ (num + seg.as.length) % 65536 ≠ 0 := by
  unfold assegmentPrependAsns
  by_cases h0 : num = 0
  · simp [h0, hseg]
  by_cases hmax : num ≥ asSegmentMax
  · simp [hmax, hseg]
  rw [if_neg h0, if_neg hmax, wellFormed_sequence htype, length_append, length_replicate]
  constructor
  · exact fun h => .inr (.inr h)
  · rintro (h | h | h)
    · exact absurd h h0
    · exact absurd h hmax
    · exact h

theorem assegmentPrependAsns_type (seg : Assegment) : (assegmentPrependAsns seg asno num).type = seg.type := by
  unfold assegmentPrependAsns
  split
  · rfl
  · split <;> rfl

theorem aspathAddAsns_canonical_iff (h : Canonical p) (htype : type.isSet = false) :
    (∃ q, aspathAddAsns p asno type num = some q ∧ Canonical q) ↔ AddKeeps p type num := by
  unfold aspathAddAsns AddKeeps
  cases p with
  | nil =>
    by_cases hnum : num < 65536
    · simp [hnum, canonical_cons, wellFormed_replicate htype hnum, Canonical.nil]
    · simp [hnum]
  | cons seg rest =>
    obtain ⟨hseg, hhead, hrest⟩ := canonical_cons.1 h
    by_cases hsame : seg.type = type
    · -- the segment at the head takes the numbers
      have hwf := assegmentPrependAsns_wellFormed asno num hseg (hsame ▸ htype)
      simp only [if_pos hsame]
      by_cases hint : num < 2 ^ 31
      · simp only [hint, if_true, some.injEq, exists_eq_left', true_and]
        rw [canonical_cons, hwf]
        constructor
        · exact fun h => h.1
        · intro hk
          exact ⟨hk, fun y hy => (hhead y hy).congr (assegmentPrependAsns_type asno num seg) rfl, hrest⟩
      · simp only [hint, if_false, reduceCtorEq, false_and, exists_false]
    · -- a new segment goes in front
      have hlen : seg.as.length ≠ 0 := fun h0 => hseg.nonempty (length_eq_zero_iff.1 h0)
      simp only [if_neg hsame, if_neg hlen]
      by_cases hnum : num < 65536
      · simp only [hnum, if_true, some.injEq, exists_eq_left', and_true]
        rw [canonical_cons, wellFormed_replicate htype hnum]
        constructor
        · exact fun h => h.1
        · intro hpos
          refine ⟨hpos, ?_, h⟩
          rintro y hy heq
          obtain rfl : seg = y := mem_some_iff.1 hy
          exact absurd heq.symm hsame
      · simp [hnum]

-- No copies of a number in front of a set leave an empty segment there.
example : aspathAddSeqN [assegmentWith .asSet [2]] 1 0 =
    some [assegmentWith .asSequence [], assegmentWith .asSet [2]] := by decide

end

/-! ## Reconciling and aggregating -/

/-- `q` copies a front part of `p` segment by segment, some of the numbers of each. -/
inductive Trimmed : Aspath → Aspath → Prop
  | nil (p : Aspath) : Trimmed [] p
  | cons {x y : Assegment} {q p : Aspath} : x.type = y.type → x.as ≠ [] → x.as.Sublist y.as →
      Trimmed q p → Trimmed (x :: q) (y :: p)

variable {q : Aspath}

section
variable (h : Trimmed q p)
include h

theorem Trimmed.wellFormed (hp : ∀ seg ∈ p, seg.WellFormed) : ∀ seg ∈ q, seg.WellFormed := by
  induction h with
  | nil p => exact fun _ hseg => absurd hseg not_mem_nil
  | cons htype hne hsub hrest ih =>
    rw [forall_mem_cons] at hp ⊢
    exact ⟨⟨hne, fun hset => (hp.1.sorted (htype ▸ hset)).sublist hsub⟩, ih hp.2⟩

theorem Trimmed.isChain {R : Assegment → Assegment → Prop}
    (hR : ∀ {x y x' y' : Assegment}, x'.type = x.type → y'.type = y.type → R x y → R x' y')
    (hp : p.IsChain R) : q.IsChain R := by
  induction h with
  | nil p => exact .nil
  | cons htype hne hsub hrest ih =>
    obtain ⟨hhead, hp'⟩ := isChain_cons.1 hp
    refine isChain_cons.2 ⟨fun z hz => ?_, ih hp'⟩
    cases hrest with
    | nil p => cases hz
    | @cons x' y' q p htype' _ _ _ =>
      obtain rfl : x' = z := mem_some_iff.1 hz
      exact hR htype htype' (hhead y' rfl)

theorem Trimmed.canonical (hp : Canonical p) : Canonical q :=
  ⟨h.wellFormed hp.segs, h.isChain (fun hx hy hxy => hxy.congr hx hy) hp.apart⟩

theorem Trimmed.take {n : Nat} (hn : 0 < n) (hne : seg.as ≠ []) :
    Trimmed (assegmentWith seg.type (seg.as.take n) :: q) (seg :: p) := by
  have hsub := take_sublist n seg.as
  have has := assegmentWith_as (t := seg.type) (hsub.length_le.trans_lt seg.length_lt)
  have hpos := length_pos_iff.2 hne
  refine .cons rfl ?_ (by rw [has]; exact hsub) h
  rw [has, ← length_pos_iff, length_take]
  omega

end

/-- What `aspath_reconcile_as4` copies of a segment when `n` hops are left to copy: only an `AS_SEQUENCE` is split. -/
def copied (x : Assegment) (n : Int) : Assegment :=
  assegmentWith x.type (x.as.take (if x.type = .asSequence then n.toNat else x.as.length))

theorem copied_as (x : Assegment) (n : Int) :
    (copied x n).as = x.as.take (if x.type = .asSequence then n.toNat else x.as.length) :=
  assegmentWith_as ((length_take_le' _ _).trans_lt x.length_lt)

/-- How many of the hops that are copied a segment has: those in a confederation count as well. -/
def copyCount (x : Assegment) : Nat := x.hopCount + x.confedCount

theorem reconcileTake_cons {hops : Int} (h : 0 < hops) :
    reconcileTake (seg :: p) hops = copied seg hops :: reconcileTake p (hops - copyCount seg) := by
  rw [reconcileTake, if_pos h]
  unfold copied copyCount Assegment.hopCount Assegment.confedCount
  cases htype : seg.type with
  | asSet => simp
  | asConfedSet => simp
  | asSequence =>
    have htake : seg.as.take (min seg.as.length hops.toNat) = seg.as.take hops.toNat := by
      simp [take_eq_take_iff, min_comm]
    simp [htake]
  | asConfedSequence =>
    by_cases hfew : hops < seg.as.length
    · -- the count is raised, and no hops are left behind the segment
      simp [hfew, reconcileTake_of_nonpos (show hops - seg.as.length ≤ 0 by omega), reconcileTake_of_nonpos le_rfl]
    · have hmin : min seg.as.length hops.toNat = seg.as.length := by omega
      simp [hfew, hmin]

theorem reconcileTake_trimmed : ∀ {p : Aspath} {hops : Int}, (∀ seg ∈ p, seg.as ≠ []) → Trimmed (reconcileTake p hops) p
  | [], hops, _ => .nil []
  | seg :: rest, hops, hp => by
    by_cases h : 0 < hops
    · have hne := hp seg (mem_cons_self ..)
      rw [reconcileTake_cons h]
      exact .take (reconcileTake_trimmed fun s hs => hp s (mem_cons_of_mem _ hs))
        (by split_ifs; omega; exact length_pos_iff.2 hne) hne
    · rw [reconcileTake_of_nonpos (by omega)]
      exact .nil _

/-- The first `hops` hops of a path end in its segment `x`, with `n` of them left for it. -/
inductive EndsIn : Aspath → Int → Assegment → Int → Prop
  | here {x : Assegment} {rest : Aspath} {hops : Int} (hpos : 0 < hops) (hend : rest = [] ∨ hops ≤ copyCount x) :
    EndsIn (x :: rest) hops x hops
  | next {seg x : Assegment} {rest : Aspath} {hops n : Int} (h : copyCount seg < hops)
    (hrest : EndsIn rest (hops - copyCount seg) x n) : EndsIn (seg :: rest) hops x n

theorem EndsIn.pos {hops n : Int} (h : EndsIn p hops x n) : 0 < hops := by
  cases h with
  | here hpos => exact hpos
  | next h => omega

theorem reconcileTake_eq_nil_iff {hops : Int} : reconcileTake p hops = [] ↔ p = [] ∨ hops ≤ 0 := by
  cases p with
  | nil => simp [reconcileTake]
  | cons seg p =>
    by_cases h : 0 < hops
    · simp [reconcileTake_cons h, h]
    · simp [reconcileTake_of_nonpos (not_lt.1 h), not_lt.1 h]

theorem reconcileTake_getLast? : ∀ {p : Aspath} {hops : Int} {y : Assegment},
    y ∈ (reconcileTake p hops).getLast? ↔ ∃ x n, EndsIn p hops x n ∧ copied x n = y
  | [], hops, y => by
    constructor
    · intro h
      cases h
    · rintro ⟨x, n, h, -⟩
      cases h
  | seg :: rest, hops, y => by
    by_cases hpos : 0 < hops
    · rw [reconcileTake_cons hpos, getLast?_cons, mem_some_iff]
      constructor
      · rintro rfl
        cases hlast : (reconcileTake rest (hops - copyCount seg)).getLast? with
        | none =>
          have hend := reconcileTake_eq_nil_iff.1 (getLast?_eq_none_iff.1 hlast)
          exact ⟨seg, hops, .here hpos (hend.imp_right fun h => by omega), rfl⟩
        | some z =>
          obtain ⟨x, n, hin, hx⟩ := reconcileTake_getLast?.1 (mem_def.2 hlast)
          exact ⟨x, n, .next (by have := hin.pos; omega) hin, hx⟩
      · rintro ⟨x, n, hin, rfl⟩
        cases hin with
        | here _ hend => rw [reconcileTake_eq_nil_iff.2 (hend.imp_right fun h => by omega)]; rfl
        | next _ hrest => rw [mem_def.1 (reconcileTake_getLast?.2 ⟨x, n, hrest, rfl⟩)]; rfl
    · rw [reconcileTake_of_nonpos (by omega)]
      constructor
      · intro h
        cases h
      · rintro ⟨x, n, h, -⟩
        exact absurd h.pos hpos

/-- How many hops of the AS_PATH are put in front of the AS4_PATH: those it has more, or its own where it has fewer. -/
def reconcileHops (aspath as4path : Aspath) : Int :=
  if aspathCountHops aspath + aspathCountConfeds aspath < aspathCountHops as4path then aspathCountHops aspath
  else aspathCountHops aspath + aspathCountConfeds aspath - aspathCountHops as4path

/-- When `aspath_reconcile_as4` keeps the canonical form: the segment in which the hops in front end may stand before
the first one of the AS4_PATH, and does not make an empty one with it. -/
def ReconcileKeeps (aspath as4path : Aspath) : Prop :=
  ∀ x n, EndsIn aspath (reconcileHops aspath as4path) x n → ∀ y ∈ as4path.head?,
    (typesPackable x y → (min n.toNat x.as.length + y.as.length) % 65536 ≠ 0) ∧
      ¬ (x.type = .asConfedSequence ∧ y.type = .asConfedSequence)

section
variable {aspath as4path : Aspath}

theorem jointKeeps_reconcileTake : JointKeeps (reconcileTake aspath (reconcileHops aspath as4path)) as4path ↔
    ReconcileKeeps aspath as4path := by
  have hlen : ∀ {x y : Assegment} {n : Int}, typesPackable x y → (copied x n).as.length = min n.toNat x.as.length := by
    intro x y n hpack
    rw [copied_as, if_pos hpack.2, length_take]
  unfold JointKeeps ReconcileKeeps
  simp only [reconcileTake_getLast?]
  constructor
  · intro h x n hin y hy
    obtain ⟨hfits, hconfed⟩ := h _ ⟨x, n, hin, rfl⟩ y hy
    exact ⟨fun hpack => hlen hpack ▸ hfits hpack, hconfed⟩
  · rintro h _ ⟨x, n, hin, rfl⟩ y hy
    obtain ⟨hfits, hconfed⟩ := h x n hin y hy
    exact ⟨fun hpack => (hlen (x := x) hpack).symm ▸ hfits hpack, hconfed⟩

/-- `aspath_reconcile_as4` copies at least one segment where it copies any hops. -/
theorem aspathReconcileAs4_returns (aspath as4path : Aspath) :
    aspathReconcileAs4 aspath as4path = some (if reconcileHops aspath as4path = 0 then as4path
      else assegmentNormalise (reconcileTake aspath (reconcileHops aspath as4path) ++ as4path)) := by
  have hhops : (if
        ((aspathCountHops aspath + aspathCountConfeds aspath : Nat) : Int) - (aspathCountHops as4path : Nat) < 0
      then (aspathCountHops aspath : Int)
      else ((aspathCountHops aspath + aspathCountConfeds aspath : Nat) : Int) - (aspathCountHops as4path : Nat)) =
        reconcileHops aspath as4path := by
    unfold reconcileHops
    split_ifs <;> omega
  unfold aspathReconcileAs4
  simp only [hhops]
  by_cases h0 : reconcileHops aspath as4path = 0
  · rw [if_pos h0, if_pos h0]
  have hne : reconcileTake aspath (reconcileHops aspath as4path) ≠ [] := by
    rw [Ne, reconcileTake_eq_nil_iff, not_or]
    refine ⟨?_, ?_⟩
    · -- a path without hops is left with none to copy
      rintro rfl
      have hnone : aspathCountHops [] = 0 ∧ aspathCountConfeds [] = 0 := ⟨rfl, rfl⟩
      unfold reconcileHops at h0
      split_ifs at h0 <;> omega
    · unfold reconcileHops at h0 ⊢
      split_ifs at h0 ⊢ <;> omega
  rw [if_neg h0, if_neg h0, aspathMerge, if_neg hne, map_some]

theorem aspathReconcileAs4_canonical_iff (h : Canonical aspath) (h4 : Canonical as4path) :
    (∃ p, aspathReconcileAs4 aspath as4path = some p ∧ Canonical p) ↔ ReconcileKeeps aspath as4path := by
  simp only [aspathReconcileAs4_returns, some.injEq, exists_eq_left']
  split_ifs with h0
  · exact ⟨fun _ x n hin => absurd hin.pos (by omega), fun _ => h4⟩
  have htrim : Canonical (reconcileTake aspath (reconcileHops aspath as4path)) :=
    (reconcileTake_trimmed fun seg hseg => (h.segs seg hseg).nonempty).canonical h
  rw [assegmentNormalise_append htrim.normalised h4.normalised, joinSegments_canonical_iff htrim h4,
    jointKeeps_reconcileTake]

end

theorem aggregateLead_trimmed : ∀ {as1 : Aspath} (as2 : Aspath) (m : Nat), (∀ seg ∈ as1, seg.as ≠ []) →
    Trimmed (aggregateLead as1 as2 m).1 as1
  | [], as2, m, _ => by
    rw [aggregateLead]
    exact .nil _
    exact fun _ _ _ _ h => by cases h
  | seg1 :: rest1, [], m, _ => .nil _
  | seg1 :: rest1, seg2 :: rest2, m, hp => by
    have hne := hp seg1 (mem_cons_self ..)
    rw [aggregateLead]
    split_ifs with htype
    · exact .nil _
    dsimp only
    split
    · split_ifs with h0
      · exact .nil _
      · exact .take (.nil _) (Nat.pos_of_ne_zero h0) hne
    · rename_i hfull
      have h0 : 0 < matchLength seg1.as seg2.as := (length_pos_iff.2 hne).trans_le (by omega)
      rw [if_neg h0.ne']
      exact .take (aggregateLead_trimmed rest2 _ fun s hs => hp s (mem_cons_of_mem _ hs)) h0 hne

/-- The set grows by numbers it does not hold yet, so it fits while there are not too many. -/
theorem foldlM_aggregateAsSetAdd : ∀ {l acc : List UInt32}, acc.Nodup → (acc ++ l).toFinset.card < 65536 →
    ∃ asset, l.foldlM aggregateAsSetAdd acc = some asset ∧ asset.length < 65536
  | [], acc, hnd, hcard => by
    rw [append_nil, toFinset_card_of_nodup hnd] at hcard
    exact ⟨acc, rfl, hcard⟩
  | a :: l, acc, hnd, hcard => by
    rw [foldlM_cons, aggregateAsSetAdd]
    by_cases hmem : a ∈ acc
    · rw [if_pos hmem]
      refine foldlM_aggregateAsSetAdd hnd (lt_of_le_of_lt (Finset.card_le_card ?_) hcard)
      intro x hx
      simp only [List.mem_toFinset, mem_append] at hx ⊢
      tauto
    · have hnd' : (acc ++ [a]).Nodup := by
        rw [nodup_append]
        exact ⟨hnd, nodup_singleton a, by rintro x hx y hy rfl; simp_all⟩
      have hcard' : (acc ++ [a] ++ l).toFinset.card < 65536 := by simpa using hcard
      have hlen : acc.length + 1 < 65536 := by
        calc acc.length + 1 = (acc ++ [a]).toFinset.card := by
              rw [toFinset_card_of_nodup hnd', length_append, length_singleton]
          _ ≤ (acc ++ [a] ++ l).toFinset.card := by
              apply Finset.card_le_card
              intro x hx
              rw [List.mem_toFinset] at hx ⊢
              exact mem_append_left _ hx
          _ < 65536 := hcard'
      rw [if_neg hmem, if_pos hlen]
      exact foldlM_aggregateAsSetAdd hnd' hcard'

theorem normaliseFrom_append_set (hset : x.type.isSet = true) :
    ∀ {a : Aspath} {pin : Assegment}, Normalised (pin :: a) →
    normaliseFrom pin (a ++ [x]) = pin :: a ++ [assegmentSort x]
  | [], pin, _ => by
    have hnot : ¬ typesPackable pin x := by
      intro h
      rw [h.isSet_right] at hset
      cases hset
    rw [nil_append, normaliseFrom, if_neg hnot]
    rfl
  | y :: a, pin, h => by
    obtain ⟨-, hhead, ha⟩ := normalised_cons.1 h
    rw [cons_append, normaliseFrom, if_neg (hhead y rfl), (ha.segs y (mem_cons_self ..)).sort_eq,
      normaliseFrom_append_set hset ha]
    rfl

/-- A set at the end of a chain in normal form only has to be sorted. -/
theorem normalise_append_set (ha : Normalised a) (hset : x.type.isSet = true) :
    assegmentNormalise (a ++ [x]) = a ++ [assegmentSort x] := by
  cases a with
  | nil => rfl
  | cons y a => rw [cons_append, assegmentNormalise, (ha.segs y (mem_cons_self ..)).sort_eq,
      normaliseFrom_append_set hset ha]

end Tarpan.Bgpd
