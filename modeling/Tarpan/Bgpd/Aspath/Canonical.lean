/-
Paths as sequences of hops, and the representation of such a sequence. In canonical form it is
unique. Expressions over the operations on paths describe every way a path can come about; the
value of an expression is canonical when each operation in it meets its condition.
-/
import Tarpan.Bgpd.Aspath.Aggregate
import Tarpan.Bgpd.Intern

namespace Tarpan.Bgpd

open Lib List Option

/-! ## Parsing -/

/-- No two of the segments on the wire are neighbouring `AS_CONFED_SEQUENCE`s. -/
def ConfedApart (p : Aspath) : Prop := p.IsChain fun x y => ¬ (x.type = .asConfedSequence ∧ y.type = .asConfedSequence)

theorem Normalised.canonical : ∀ {p : Aspath}, Normalised p → ConfedApart p → Canonical p
  | [], _, _ => .nil
  | x :: p, hp, hc => by
    obtain ⟨hx, hhead, hp'⟩ := normalised_cons.1 hp
    obtain ⟨hchead, hc'⟩ := isChain_cons.1 hc
    exact canonical_cons.2 ⟨hx, fun y hy => apart_iff.2 ⟨hhead y hy, hchead y hy⟩, hp'.canonical hc'⟩

theorem normaliseFrom_confedApart : ∀ {rest : Aspath} {pin : Assegment}, ConfedApart (pin :: rest) →
    ConfedApart (normaliseFrom pin rest)
  | [], _, h => h
  | seg :: rest, pin, h => by
    obtain ⟨hhead, hrest⟩ := isChain_cons.1 h
    obtain ⟨hhead', hrest'⟩ := isChain_cons.1 hrest
    unfold normaliseFrom
    split_ifs with hpack
    · refine normaliseFrom_confedApart (isChain_cons.2 ⟨fun y _ hc => ?_, hrest'⟩)
      exact absurd (hpack.2.symm.trans hc.1) (by decide)
    obtain ⟨first, p, heq, htype⟩ := normaliseFrom_type (assegmentSort seg) rest
    have hsort : ConfedApart (assegmentSort seg :: rest) := by
      refine isChain_cons.2 ⟨fun y hy hc => hhead' y hy ?_, hrest'⟩
      rwa [assegmentSort_type] at hc
    refine isChain_cons.2 ⟨fun y hy hc => ?_, normaliseFrom_confedApart hsort⟩
    rw [heq] at hy
    obtain rfl : first = y := mem_some_iff.1 hy
    rw [htype, assegmentSort_type] at hc
    exact hhead seg rfl hc

variable {use32bit : Bool} {length : Nat}

theorem asnsGet_length : ∀ {num : Nat} {s s' : Stream} {as : List UInt32},
    asnsGet use32bit num s = some (as, s') → as.length = num
  | 0, s, s', as, h => by
    cases h
    rfl
  | num + 1, s, s', as, h => by
    simp only [asnsGet, bind_eq_bind, Option.bind_eq_some_iff] at h
    obtain ⟨⟨a, s1⟩, -, ⟨rest, s2⟩, hrest, heq⟩ := h
    cases heq
    rw [length_cons, asnsGet_length hrest]

/-- What the parser has accepted: no empty segment, and two octets at least for each number. -/
theorem assegmentsParseLoop_accepts (s : Stream) (bytes : Nat) {raw : Aspath}
    {s' : Stream} (hle : bytes ≤ length) (h : assegmentsParseLoop use32bit length s bytes = some (some raw, s')) :
    (∀ seg ∈ raw, seg.as ≠ []) ∧ bytes + 2 * assegmentCountAsns raw ≤ length := by
  rw [assegmentsParseLoop] at h
  split at h
  · split at h
    · cases h
    simp only [bind_eq_bind, Option.bind_eq_some_iff] at h
    obtain ⟨⟨type, s1⟩, -, ⟨len, s2⟩, -, h⟩ := h
    dsimp only at h
    split_ifs at h with hok
    · cases h
    split at h
    · cases h
    rename_i type' _
    simp only [Option.bind_eq_some_iff] at h
    obtain ⟨⟨as, s3⟩, has, ⟨rest, s4⟩, hrest, heq⟩ := h
    obtain ⟨hfit, hlen⟩ := not_or.1 hok
    have hsize : 2 + 2 * len.toNat ≤ assegmentSize len.toNat use32bit := by
      cases use32bit <;> simp [assegmentSize, asHeaderSize] <;> omega
    have haslen := asnsGet_length has
    have has' : (assegmentWith type' as).as = as :=
      assegmentWith_as (by rw [haslen]; exact len.toNat_lt.trans (by decide))
    cases rest with
    | none => cases heq
    | some rest =>
      obtain rfl : assegmentWith type' as :: rest = raw := by
        exact some.inj (Prod.mk.inj (some.inj heq)).1
      obtain ⟨hne, hcnt⟩ := assegmentsParseLoop_accepts s3 _ (by omega) hrest
      constructor
      · intro seg hseg
        rcases mem_cons.1 hseg with rfl | hseg
        · rw [has', ← length_pos_iff, haslen]
          exact Nat.pos_of_ne_zero fun h0 => hlen (UInt8.toNat_inj.1 h0)
        · exact hne seg hseg
      · rw [assegmentCountAsns_cons, has']
        omega
  · cases h
    exact ⟨by simp, by simpa using hle⟩
termination_by length - bytes
decreasing_by simp only [assegmentSize, asHeaderSize]; omega

/-- The octets hold a path, in segments none of which are neighbouring `AS_CONFED_SEQUENCE`s. The
length comes from a two-octet field. -/
structure ParseKeeps (s : Stream) (length : Nat) (use32bit : Bool) : Prop where
  length_lt : length < 65536
  accepted : ∃ p s', aspathParse s length use32bit = some (some p, s')
  confed : ∀ raw s', assegmentsParseLoop use32bit length s 0 = some (some raw, s') → ConfedApart raw

theorem aspathParse_canonical {s : Stream} (h : ParseKeeps s length use32bit) :
    ∃ p s', aspathParse s length use32bit = some (some p, s') ∧ Canonical p := by
  obtain ⟨p, s', hp⟩ := h.accepted
  refine ⟨p, s', hp, ?_⟩
  unfold aspathParse assegmentsParse at hp
  split at hp
  · cases hp
  split at hp
  · cases hp
    exact .nil
  split at hp
  · cases hp
  simp only [map_eq_some_iff] at hp
  obtain ⟨⟨raw, s1⟩, hraw, heq⟩ := hp
  cases raw with
  | none => cases heq
  | some raw =>
    cases heq
    obtain ⟨hne, hcnt⟩ := assegmentsParseLoop_accepts s 0 (Nat.zero_le _) hraw
    have hlen := h.length_lt
    refine (assegmentNormalise_normalised hne (by omega)).canonical ?_
    have hconf := h.confed raw s1 hraw
    cases raw with
    | nil => exact .nil
    | cons seg rest =>
      obtain ⟨hhead, hrest⟩ := isChain_cons.1 hconf
      refine normaliseFrom_confedApart (isChain_cons.2 ⟨fun y hy hc => hhead y hy ?_, hrest⟩)
      rwa [assegmentSort_type] at hc

/-! ## Hops -/

/-- One hop of a path: an AS passed through, or a set of them in no order. -/
inductive Hop
  | asn (a : UInt32)
  | set (s : Finset UInt32)
  | confedAsn (a : UInt32)
  | confedSet (s : Finset UInt32)
  deriving DecidableEq

/-- The type of the segments that hold such a hop. -/
def Hop.type : Hop → AsSegType
  | asn _ => .asSequence
  | set _ => .asSet
  | confedAsn _ => .asConfedSequence
  | confedSet _ => .asConfedSet

def Assegment.hops (seg : Assegment) : List Hop :=
  match seg.type with
  | .asSequence => seg.as.map .asn
  | .asSet => [.set seg.as.toFinset]
  | .asConfedSequence => seg.as.map .confedAsn
  | .asConfedSet => [.confedSet seg.as.toFinset]

/-- The sequence of hops that a path stands for. -/
def hops (p : Aspath) : List Hop := p.flatMap Assegment.hops

variable {seg : Assegment}

theorem mem_segment_hops {h : Hop} (hmem : h ∈ seg.hops) : h.type = seg.type := by
  unfold Assegment.hops at hmem
  split at hmem <;> rename_i htype <;> rw [htype]
  · obtain ⟨a, -, rfl⟩ := mem_map.1 hmem
    rfl
  · obtain rfl := mem_singleton.1 hmem
    rfl
  · obtain ⟨a, -, rfl⟩ := mem_map.1 hmem
    rfl
  · obtain rfl := mem_singleton.1 hmem
    rfl

theorem segment_hops_ne_nil (hseg : seg.WellFormed) : seg.hops ≠ [] := by
  unfold Assegment.hops
  split
  · simpa using hseg.nonempty
  · simp
  · simpa using hseg.nonempty
  · simp

theorem segment_hops_length_of_set (h : seg.type.isSet = true) : seg.hops.length = 1 := by
  unfold Assegment.hops
  split <;> rename_i ht <;> rw [ht] at h
  · cases h
  · rfl
  · cases h
  · rfl

theorem eq_of_toFinset_eq {l l' : List UInt32} (hl : l.Pairwise (· < ·)) (hl' : l'.Pairwise (· < ·))
    (h : l.toFinset = l'.toFinset) : l = l' := by
  have hperm := perm_of_nodup_nodup_toFinset_eq (hl.imp UInt32.ne_of_lt) (hl'.imp UInt32.ne_of_lt) h
  exact hperm.eq_of_pairwise' (hl.imp UInt32.le_of_lt) (hl'.imp UInt32.le_of_lt)

variable {x : Assegment}

theorem segment_eq_of_hops {y : Assegment} (hx : x.WellFormed) (hy : y.WellFormed) (htype : x.type = y.type)
    (h : x.hops = y.hops) : x = y := by
  apply Assegment.eq_of htype
  unfold Assegment.hops at h
  rw [← htype] at h
  split at h <;> rename_i ht
  · exact (map_injective_iff.2 fun a b hab => by cases hab; rfl) h
  · refine eq_of_toFinset_eq (hx.sorted (by rw [ht]; rfl)) (hy.sorted (by rw [← htype, ht]; rfl)) ?_
    simpa using h
  · exact (map_injective_iff.2 fun a b hab => by cases hab; rfl) h
  · refine eq_of_toFinset_eq (hx.sorted (by rw [ht]; rfl)) (hy.sorted (by rw [← htype, ht]; rfl)) ?_
    simpa using h

theorem hops_cons (x : Assegment) (p : Aspath) : hops (x :: p) = x.hops ++ hops p := by simp [hops]

section
variable {p : Aspath} (h : Canonical (x :: p)) (hset : x.type.isSet = false)
include h hset

/-- The hops of the segments that follow begin with another type, where the segment is a sequence. -/
theorem hops_head_type : ∀ hop ∈ (hops p).head?, hop.type ≠ x.type := by
  intro hop hhop htype
  cases p with
  | nil => cases hhop
  | cons y p =>
    obtain ⟨-, hhead, hp⟩ := canonical_cons.1 h
    have hmem : hop ∈ y.hops := by
      rw [hops_cons, List.head?_append_of_ne_nil _ (segment_hops_ne_nil (canonical_cons.1 hp).1)] at hhop
      exact mem_of_mem_head? hhop
    have hsets := hhead y rfl (htype.symm.trans (mem_segment_hops hmem))
    rw [hset] at hsets
    cases hsets

theorem takeWhile_hops : (hops (x :: p)).takeWhile (·.type = x.type) = x.hops := by
  have hnil : (hops p).takeWhile (·.type = x.type) = [] := by
    have hhead := hops_head_type h hset
    cases hh : hops p with
    | nil => rfl
    | cons hop l =>
      rw [hh] at hhead
      simp [hhead hop rfl]
  rw [hops_cons, takeWhile_append_of_pos fun hop hmem => by simpa using mem_segment_hops hmem, hnil, append_nil]

end

/-- A sequence of hops has one canonical representation. -/
theorem hops_injective : ∀ {p q : Aspath}, Canonical p → Canonical q → hops p = hops q → p = q
  | [], [], _, _, _ => rfl
  | [], y :: q, _, hq, h => by
    have := segment_hops_ne_nil (canonical_cons.1 hq).1
    simp_all [hops]
  | x :: p, [], hp, _, h => by
    have := segment_hops_ne_nil (canonical_cons.1 hp).1
    simp_all [hops]
  | x :: p, y :: q, hp, hq, h => by
    have hx := (canonical_cons.1 hp).1
    have hy := (canonical_cons.1 hq).1
    -- the first hop gives the type of the first segment
    have htype : x.type = y.type := by
      obtain ⟨hop, l, hl⟩ := exists_cons_of_ne_nil (segment_hops_ne_nil hx)
      obtain ⟨hop', l', hl'⟩ := exists_cons_of_ne_nil (segment_hops_ne_nil hy)
      rw [hops_cons, hops_cons, hl, hl', cons_append] at h
      have hsame : hop = hop' := (List.cons.inj h).1
      have hxt : hop.type = x.type := mem_segment_hops (by simp [hl])
      have hyt : hop'.type = y.type := mem_segment_hops (by simp [hl'])
      rw [← hxt, ← hyt, hsame]
    have hfirst : x.hops = y.hops := by
      cases hset : x.type.isSet with
      | false =>
        rw [← takeWhile_hops hp hset, ← takeWhile_hops hq (htype ▸ hset), h, htype]
      | true =>
        have hxlen := segment_hops_length_of_set hset
        have hylen := segment_hops_length_of_set (htype ▸ hset)
        exact (append_inj h (hxlen.trans hylen.symm)).1
    have hrest : hops p = hops q := by
      rw [hops_cons, hops_cons, hfirst] at h
      exact append_cancel_left h
    rw [segment_eq_of_hops hx hy htype hfirst, hops_injective hp.tail hq.tail hrest]

/-! ## Paths built by the operations -/

/-- A composition of the operations on paths. -/
inductive AspathExpr
  | given (p : Aspath)
  | parse (s : Stream) (length : Nat) (use32bit : Bool)
  | aggregate (as1 as2 : AspathExpr)
  | reconcileAs4 (aspath as4path : AspathExpr)
  | prepend (as1 as2 : AspathExpr)
  | addSeqN (aspath : AspathExpr) (asno : UInt32) (num : Nat)
  | addConfedSeq (aspath : AspathExpr) (asno : UInt32)
  | deleteConfedSeq (aspath : AspathExpr)
  | filterExclude (source excludeList : AspathExpr)

namespace AspathExpr

/-- The path that a composition builds, if none of its operations fails. -/
def eval : AspathExpr → Option Aspath
  | given p => some p
  | parse s length use32bit => (aspathParse s length use32bit).bind (·.1)
  | aggregate e1 e2 => do aspathAggregate (← e1.eval) (← e2.eval)
  | reconcileAs4 e1 e2 => do aspathReconcileAs4 (← e1.eval) (← e2.eval)
  | prepend e1 e2 => do aspathPrepend (← e1.eval) (← e2.eval)
  | addSeqN e asno num => do aspathAddSeqN (← e.eval) asno num
  | addConfedSeq e asno => do aspathAddConfedSeq (← e.eval) asno
  | deleteConfedSeq e => do return aspathDeleteConfedSeq (← e.eval)
  | filterExclude e1 e2 => do return aspathFilterExclude (← e1.eval) (← e2.eval)

/-- Every operation of the composition meets its condition on the paths it is applied to, and the
paths it starts from are canonical. -/
def Keeps : AspathExpr → Prop
  | given p => Canonical p
  | parse s length use32bit => ParseKeeps s length use32bit
  | aggregate e1 e2 => e1.Keeps ∧ e2.Keeps ∧ ∀ p ∈ e1.eval, ∀ q ∈ e2.eval, AggregateKeeps p q
  | reconcileAs4 e1 e2 => e1.Keeps ∧ e2.Keeps ∧ ∀ p ∈ e1.eval, ∀ q ∈ e2.eval, ReconcileKeeps p q
  | prepend e1 e2 => e1.Keeps ∧ e2.Keeps ∧ ∀ p ∈ e1.eval, ∀ q ∈ e2.eval, PrependKeeps p q
  | addSeqN e _ num => e.Keeps ∧ ∀ p ∈ e.eval, AddKeeps p .asSequence num
  | addConfedSeq e _ => e.Keeps ∧ ∀ p ∈ e.eval, AddKeeps p .asConfedSequence 1
  | deleteConfedSeq e => e.Keeps
  | filterExclude e1 e2 => e1.Keeps ∧ e2.Keeps ∧ ∀ p ∈ e1.eval, ∀ q ∈ e2.eval, FilterKeeps p q

/-- The canonical form along a whole composition: one case for each operation. -/
theorem eval_canonical : ∀ {e : AspathExpr}, e.Keeps → ∃ p, e.eval = some p ∧ Canonical p
  | given p, h => ⟨p, rfl, h⟩
  | parse s length use32bit, h => by
    obtain ⟨p, s', hparse, hp⟩ := aspathParse_canonical h
    exact ⟨p, by simp [eval, hparse], hp⟩
  | aggregate e1 e2, h => by
    obtain ⟨p, hp, hcp⟩ := eval_canonical h.1
    obtain ⟨q, hq, -⟩ := eval_canonical h.2.1
    obtain ⟨r, hr, hcr⟩ := (aspathAggregate_canonical_iff hcp).2 (h.2.2 p hp q hq)
    exact ⟨r, by simp [eval, hp, hq, hr], hcr⟩
  | reconcileAs4 e1 e2, h => by
    obtain ⟨p, hp, hcp⟩ := eval_canonical h.1
    obtain ⟨q, hq, hcq⟩ := eval_canonical h.2.1
    obtain ⟨r, hr, hcr⟩ := (aspathReconcileAs4_canonical_iff hcp hcq).2 (h.2.2 p hp q hq)
    exact ⟨r, by simp [eval, hp, hq, hr], hcr⟩
  | prepend e1 e2, h => by
    obtain ⟨p, hp, hcp⟩ := eval_canonical h.1
    obtain ⟨q, hq, hcq⟩ := eval_canonical h.2.1
    obtain ⟨r, hr, hcr⟩ := (aspathPrepend_canonical_iff hcp hcq).2 (h.2.2 p hp q hq)
    exact ⟨r, by simp [eval, hp, hq, hr], hcr⟩
  | addSeqN e asno num, h => by
    obtain ⟨p, hp, hcp⟩ := eval_canonical h.1
    obtain ⟨r, hr, hcr⟩ := (aspathAddAsns_canonical_iff asno num hcp rfl).2 (h.2 p hp)
    exact ⟨r, by simp [eval, hp, aspathAddSeqN, hr], hcr⟩
  | addConfedSeq e asno, h => by
    obtain ⟨p, hp, hcp⟩ := eval_canonical h.1
    obtain ⟨r, hr, hcr⟩ := (aspathAddAsns_canonical_iff asno 1 hcp rfl).2 (h.2 p hp)
    exact ⟨r, by simp [eval, hp, aspathAddConfedSeq, hr], hcr⟩
  | deleteConfedSeq e, h => by
    obtain ⟨p, hp, hcp⟩ := eval_canonical (show e.Keeps from h)
    exact ⟨_, by simp [eval, hp], aspathDeleteConfedSeq_canonical hcp⟩
  | filterExclude e1 e2, h => by
    obtain ⟨p, hp, hcp⟩ := eval_canonical h.1
    obtain ⟨q, hq, -⟩ := eval_canonical h.2.1
    exact ⟨_, by simp [eval, hp, hq], (aspathFilterExclude_canonical_iff hcp q).2 (h.2.2 p hp q hq)⟩

end AspathExpr

/-! ## Interned paths -/

/-- An interned path: the object and its segments. -/
structure AspathObject where
  addr : UInt64
  segments : Aspath
  deriving DecidableEq

section Interned
variable (keyMake : Aspath → UInt32)

/-- `aspath_key_make` hashes the printed path; nothing here depends on how. -/
def aspathKeyMake (x : AspathObject) : UInt32 := keyMake x.segments
def aspathObjectCmp (x y : AspathObject) : Bool := aspathCmp x.segments y.segments

def aspathIntern (t : InternTable AspathObject) (x : AspathObject) : Option (AspathObject × InternTable AspathObject) :=
  intern (aspathKeyMake keyMake) aspathObjectCmp t x

/-- The tables of interned paths. -/
def AspathTable (t : InternTable AspathObject) : Prop := t.Reachable (aspathKeyMake keyMake) aspathObjectCmp

theorem aspathObjectCmp_equivalence : Equivalence fun x y => aspathObjectCmp x y = true := by
  unfold aspathObjectCmp
  simp only [aspathCmp_iff]
  exact ⟨fun _ => rfl, fun h => h.symm, fun h h' => h.trans h'⟩

variable {keyMake}

/-- A path that is interned is found again by any path with the same segments. -/
theorem aspathIntern_same {t : InternTable AspathObject} {x y : AspathObject} (ht : AspathTable keyMake t)
    (hx : 0 < t.refcnt x) (hy : t.refcnt y = 0) (h : x.segments = y.segments) :
    ∃ t', aspathIntern keyMake t y = some (x, t') := by
  have heq := aspathObjectCmp_equivalence
  obtain ⟨z, t', hz, -, -, -, -, huniq⟩ := intern_spec heq (ht.ok heq) hy
  obtain rfl : x = z := huniq x hx ⟨congrArg keyMake h, aspathCmp_iff.2 h⟩
  exact ⟨t', hz⟩

end Interned

/-- Compositions all of whose operations meet their condition build paths in normal form; two that
build the same sequence of hops build the same segments, and interning the second path gives the
object of the first. -/
theorem aspathExpr_canonical {e e' : AspathExpr} (he : e.Keeps) (he' : e'.Keeps) :
    ∃ p p', e.eval = some p ∧ e'.eval = some p' ∧ Normalised p ∧ (hops p = hops p' → p = p' ∧
      ∀ (keyMake : Aspath → UInt32) (t : InternTable AspathObject) (x y : AspathObject),
        AspathTable keyMake t → 0 < t.refcnt x → x.segments = p → t.refcnt y = 0 → y.segments = p' →
          ∃ t', aspathIntern keyMake t y = some (x, t')) := by
  obtain ⟨p, hp, hcp⟩ := AspathExpr.eval_canonical he
  obtain ⟨p', hp', hcp'⟩ := AspathExpr.eval_canonical he'
  refine ⟨p, p', hp, hp', hcp.normalised, fun hhops => ?_⟩
  have hsegs := hops_injective hcp hcp' hhops
  refine ⟨hsegs, fun keyMake t x y ht hx hxp hy hyp => ?_⟩
  exact aspathIntern_same ht hx hy (hxp.trans (hsegs.trans hyp.symm))

/-- Two numbers added in front of a path, and the same path with them prepended as a sequence. -/
theorem aspathExpr_canonical_add_prepend :
    ∃ p p', (AspathExpr.addSeqN (.given [assegmentWith .asSequence [3]]) 1 2).eval = some p ∧
      (AspathExpr.prepend (.given [assegmentWith .asSequence [1, 1]])
        (.given [assegmentWith .asSequence [3]])).eval = some p' ∧ Normalised p ∧ (hops p = hops p' → p = p' ∧
      ∀ (keyMake : Aspath → UInt32) (t : InternTable AspathObject) (x y : AspathObject),
        AspathTable keyMake t → 0 < t.refcnt x → x.segments = p → t.refcnt y = 0 → y.segments = p' →
          ∃ t', aspathIntern keyMake t y = some (x, t')) := by
  have hone : ∀ l : List UInt32, l ≠ [] → l.length < 65536 → Canonical [assegmentWith .asSequence l] := by
    intro l hne hlen
    refine canonical_cons.2 ⟨⟨by rwa [assegmentWith_as hlen], fun h => by cases h⟩, by simp, .nil⟩
  refine aspathExpr_canonical ⟨hone _ (by decide) (by decide), ?_⟩
    ⟨hone _ (by decide) (by decide), hone _ (by decide) (by decide), ?_⟩
  · rintro p hp
    cases hp
    decide
  · rintro p hp q hq
    cases hp
    cases hq
    refine ⟨fun x hx y hy => ?_, fun x hx y hy _ hconf => ?_⟩
    · cases hx
      cases hy
      decide
    · cases hy
      cases hconf

/-- Taking the set out from between two sequences leaves them side by side: the result is not in
normal form, and differs from the normal form of the same hops. -/
theorem filterExclude_not_normalised :
    Normalised [assegmentWith .asSequence [1], assegmentWith .asSet [2], assegmentWith .asSequence [3]] ∧
      Normalised [assegmentWith .asSequence [2]] ∧
      ∃ p, (AspathExpr.filterExclude
          (.given [assegmentWith .asSequence [1], assegmentWith .asSet [2], assegmentWith .asSequence [3]])
          (.given [assegmentWith .asSequence [2]])).eval = some p ∧ ¬ Normalised p ∧
        hops p = hops [assegmentWith .asSequence [1, 3]] ∧ p ≠ [assegmentWith .asSequence [1, 3]] := by
  refine ⟨?_, ?_, _, rfl, fun h => ?_, by decide, by decide⟩
  · refine normalised_cons.2 ⟨⟨by decide, fun h => by cases h⟩, by decide, normalised_cons.2
      ⟨⟨by decide, fun _ => by decide⟩, by decide, normalised_singleton_sequence (by decide) (by decide)⟩⟩
  · exact normalised_singleton_sequence (by decide) (by decide)
  · exact (normalised_cons.1 h).2.1 _ rfl ⟨rfl, rfl⟩

end Tarpan.Bgpd
