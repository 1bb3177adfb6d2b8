/-
What `aspath_aggregate` keeps of the AS numbers. What follows the common leading part goes into a set, from the index
that `match` has. After equal segments this is their length, though none of the numbers that come next has been copied.
-/
import Tarpan.Bgpd.Aspath.Operations

namespace Tarpan.Bgpd

open List

/-! ## The common leading part -/

/-- Two paths: equal segments in front, and what follows them in each path. -/
structure Parting where
  common : Aspath
  rest1 : Aspath
  rest2 : Aspath

def parting : Aspath → Aspath → Parting
  | seg1 :: rest1, seg2 :: rest2 =>
    if seg1 = seg2 then { parting rest1 rest2 with common := seg1 :: (parting rest1 rest2).common }
    else ⟨[], seg1 :: rest1, seg2 :: rest2⟩
  | as1, as2 => ⟨[], as1, as2⟩

theorem parting_eq : ∀ as1 as2 : Aspath, as1 = (parting as1 as2).common ++ (parting as1 as2).rest1 ∧
    as2 = (parting as1 as2).common ++ (parting as1 as2).rest2
  | [], as2 => by cases as2 <;> exact ⟨rfl, rfl⟩
  | _ :: _, [] => ⟨rfl, rfl⟩
  | seg1 :: rest1, seg2 :: rest2 => by
    obtain ⟨h1, h2⟩ := parting_eq rest1 rest2
    rw [parting]
    split_ifs with h
    · exact ⟨congrArg _ h1, h ▸ congrArg _ h2⟩
    · exact ⟨rfl, rfl⟩

/-- The numbers of the first segment before an index. -/
def asnsBefore (start : Nat) : Aspath → List UInt32
  | [] => []
  | seg :: _ => seg.as.take start

variable {a : UInt32}

theorem mem_asns_iff (start : Nat) (p : Aspath) :
    a ∈ p.flatMap (·.as) ↔ a ∈ asnsBefore start p ∨ a ∈ asnsFrom start p := by
  cases p with
  | nil => simp [asnsBefore, asnsFrom]
  | cons seg rest => rw [asnsBefore, asnsFrom, ← mem_append, ← append_assoc, take_append_drop, flatMap_cons]

namespace Parting

/-- How many numbers the next two segments have in common, if these are of one type. -/
def inner (d : Parting) : Option Nat :=
  match d.rest1, d.rest2 with
  | seg1 :: _, seg2 :: _ => if seg1.type = seg2.type then some (matchLength seg1.as seg2.as) else none
  | _, _ => none

/-- The value of `match` at the end of the loop, `m` before it. -/
def index (d : Parting) (m : Nat) : Nat := d.inner.getD ((d.common.getLast?.map (·.as.length)).getD m)

/-- The common leading part: the equal segments, and the numbers in common of the next two if these are of one type. -/
def lead (d : Parting) : Aspath :=
  d.common ++
    match d.inner, d.rest1 with
    | some (n + 1), seg :: _ => [assegmentWith seg.type (seg.as.take (n + 1))]
    | _, _ => []

/-- The numbers that go into the set. -/
def rest (d : Parting) : List UInt32 := asnsFrom (d.index 0) d.rest1 ++ asnsFrom (d.index 0) d.rest2

/-- The numbers that are passed over after equal segments. -/
def passedOver (d : Parting) : List UInt32 :=
  if d.inner = none then asnsBefore (d.index 0) d.rest1 ++ asnsBefore (d.index 0) d.rest2 else []

end Parting

theorem take_matchLength : ∀ l l' : List UInt32, l.take (matchLength l l') = l'.take (matchLength l l')
  | [], _ => by simp [matchLength]
  | _ :: _, [] => by simp [matchLength]
  | a :: l, b :: l' => by
    rw [matchLength]
    split_ifs with h
    · rw [h, take_succ_cons, take_succ_cons, take_matchLength l l']
    · rfl

/-- Where the walk stops inside of two segments, what they have in common is in the leading part. -/
theorem Parting.lead_of_inner : ∀ {d : Parting} {n : Nat}, d.inner = some n →
    d.lead.flatMap (·.as) = d.common.flatMap (·.as) ++ asnsBefore n d.rest1 ∧
      asnsBefore n d.rest2 = asnsBefore n d.rest1
  | ⟨common, seg1 :: rest1, seg2 :: rest2⟩, n, h => by
    have hlen := (length_take_le' n seg1.as).trans_lt seg1.length_lt
    have hmatch := h
    simp only [inner] at hmatch
    split at hmatch
    · rw [lead, h]
      refine ⟨?_, ?_⟩
      · cases n with
        | zero => rw [append_nil, asnsBefore, take_zero, append_nil]
        | succ n => rw [flatMap_append, flatMap_singleton, assegmentWith_as hlen, asnsBefore]
      · cases hmatch
        exact (take_matchLength seg1.as seg2.as).symm
    · cases hmatch

theorem Parting.mem_iff (d : Parting) : (a ∈ d.lead.flatMap (·.as) ∨ a ∈ d.rest) ∨ a ∈ d.passedOver ↔
    a ∈ d.common.flatMap (·.as) ∨ a ∈ d.rest1.flatMap (·.as) ∨ a ∈ d.rest2.flatMap (·.as) := by
  rw [mem_asns_iff (d.index 0) d.rest1, mem_asns_iff (d.index 0) d.rest2]
  unfold rest passedOver
  cases hm : d.inner with
  | none =>
    have hcom : d.lead = d.common := by rw [lead, hm]; exact append_nil _
    simp only [hcom, if_true, mem_append]
    tauto
  | some n =>
    have hidx : d.index 0 = n := by rw [index, hm]; rfl
    obtain ⟨hlead, hbef⟩ := lead_of_inner hm
    simp only [hlead, hidx, hbef, mem_append]
    tauto

theorem matchLength_self : ∀ l : List UInt32, matchLength l l = l.length
  | [] => rfl
  | a :: l => by rw [matchLength, if_pos rfl, matchLength_self l, length_cons]

theorem aggregateLead_eq : ∀ {as1 as2 : Aspath} {m : Nat}, (∀ seg ∈ as1, seg.as ≠ []) → aggregateLead as1 as2 m =
    ((parting as1 as2).lead, (parting as1 as2).index m, (parting as1 as2).rest1, (parting as1 as2).rest2)
  | [], as2, m, _ => by cases as2 <;> rfl
  | seg1 :: rest1, [], m, _ => rfl
  | seg1 :: rest1, seg2 :: rest2, m, hne => by
    rw [aggregateLead]
    by_cases heq : seg1 = seg2
    · subst heq
      have h0 : seg1.as.length ≠ 0 := fun h => hne seg1 (mem_cons_self ..) (length_eq_zero_iff.1 h)
      dsimp only
      rw [if_neg (not_not_intro rfl), matchLength_self, if_neg h0, if_neg (by simp), take_length, assegmentWith_self,
        aggregateLead_eq fun s hs => hne s (mem_cons_of_mem _ hs), parting]
      simp [Parting.lead, Parting.index, Parting.inner, getLast?_cons]
    rw [parting, if_neg heq]
    simp only [Parting.lead, Parting.index, Parting.inner]
    by_cases htype : seg1.type = seg2.type
    · have hdiffer : matchLength seg1.as seg2.as ≠ min seg1.as.length seg2.as.length ∨
          matchLength seg1.as seg2.as ≠ seg1.as.length ∨ seg1.as.length ≠ seg2.as.length := by
        by_contra h
        simp only [not_or, not_not] at h
        refine heq (Assegment.eq_of htype ?_)
        have := take_matchLength seg1.as seg2.as
        rwa [h.2.1, take_length, h.2.2, take_length] at this
      rw [if_neg (not_not_intro htype), if_pos hdiffer, if_pos htype]
      cases matchLength seg1.as seg2.as <;> rfl
    · rw [if_pos htype, if_neg htype]
      rfl

/-! ## The set -/

/-- What the set holds once all numbers were added. -/
theorem mem_of_foldlM : ∀ {l acc asset : List UInt32}, acc.Nodup → acc.length < 65536 →
    l.foldlM aggregateAsSetAdd acc = some asset → asset.Nodup ∧ asset.length < 65536 ∧ ∀ a, a ∈ asset ↔ a ∈ acc ∨ a ∈ l
  | [], acc, asset, hnd, hlen, h => by
    cases h
    exact ⟨hnd, hlen, by simp⟩
  | a :: l, acc, asset, hnd, hlen, h => by
    rw [foldlM_cons, aggregateAsSetAdd] at h
    by_cases hmem : a ∈ acc
    · rw [if_pos hmem] at h
      obtain ⟨hnd', hlen', hiff⟩ := mem_of_foldlM hnd hlen h
      refine ⟨hnd', hlen', fun b => ?_⟩
      rw [hiff, mem_cons]
      exact ⟨fun hb => hb.imp_right .inr, fun hb => hb.elim .inl fun hb => hb.elim (fun hb => .inl (hb ▸ hmem)) .inr⟩
    · rw [if_neg hmem] at h
      split_ifs at h with hroom
      · have hnd1 : (acc ++ [a]).Nodup := by simpa [nodup_append] using ⟨hnd, fun b hb => ne_of_mem_of_not_mem hb hmem⟩
        obtain ⟨hnd', hlen', hiff⟩ := mem_of_foldlM hnd1 (by simpa using hroom) h
        exact ⟨hnd', hlen', fun b => by rw [hiff]; simp [or_assoc]⟩
      · cases h

/-- All numbers go into the set exactly where they are not too many. -/
theorem foldlM_aggregateAsSetAdd_iff {l : List UInt32} :
    (∃ asset, l.foldlM aggregateAsSetAdd [] = some asset) ↔ l.toFinset.card < 65536 := by
  constructor
  · rintro ⟨asset, hfold⟩
    obtain ⟨hnd, hlen, hmem⟩ := mem_of_foldlM nodup_nil (by decide) hfold
    have hsame : l.toFinset = asset.toFinset := by
      ext a
      rw [mem_toFinset, mem_toFinset, hmem, or_iff_right not_mem_nil]
    rwa [hsame, toFinset_card_of_nodup hnd]
  · intro hcard
    obtain ⟨asset, hfold, -⟩ := foldlM_aggregateAsSetAdd nodup_nil hcard
    exact ⟨asset, hfold⟩

/-- The sorted set of the numbers, if there are any. -/
def setOf (asset : List UInt32) : Aspath := if asset = [] then [] else [assegmentSort (assegmentWith .asSet asset)]

theorem mem_setOf {asset : List UInt32} (hlen : asset.length < 65536) :
    a ∈ (setOf asset).flatMap (·.as) ↔ a ∈ asset := by
  unfold setOf
  split_ifs with h
  · rw [h]
    rfl
  · have has : (assegmentSort (assegmentWith .asSet asset)).as = sortWeed asset :=
      congrArg sortWeed (assegmentWith_as hlen)
    rw [flatMap_singleton, has, mem_sortWeed]

variable {as1 as2 : Aspath}

theorem lead_trimmed (hne : ∀ seg ∈ as1, seg.as ≠ []) : Trimmed (parting as1 as2).lead as1 := by
  have htrim := aggregateLead_trimmed as2 0 hne
  rwa [aggregateLead_eq hne] at htrim

theorem aspathAggregate_eq_some_iff (h1 : Normalised as1) {p : Aspath} : aspathAggregate as1 as2 = some p ↔
    ∃ asset, (parting as1 as2).rest.foldlM aggregateAsSetAdd [] = some asset ∧
      p = (parting as1 as2).lead ++ setOf asset := by
  have hne : ∀ seg ∈ as1, seg.as ≠ [] := fun seg hseg => (h1.segs seg hseg).nonempty
  have htrim : Trimmed (parting as1 as2).lead as1 := lead_trimmed hne
  rw [aspathAggregate, aggregateLead_eq hne]
  have hlead : Normalised (parting as1 as2).lead :=
    ⟨htrim.wellFormed h1.segs, htrim.isChain (fun hx hy hxy h => hxy ⟨by rw [← hx, ← hy, h.1], hx ▸ h.2⟩) h1.unpacked⟩
  rw [Option.map_eq_some_iff]
  refine exists_congr fun asset => and_congr_right fun _ => ?_
  rw [eq_comm, setOf]
  split
  · rw [append_nil, hlead.normalise_eq]
  · rw [normalise_append_set hlead rfl]

/-- When `aspath_aggregate` keeps the canonical form: fewer than 65536 different numbers stand behind what the paths
have in common. -/
def AggregateKeeps (as1 as2 : Aspath) : Prop := (parting as1 as2).rest.toFinset.card < 65536

theorem canonical_lead_setOf {asset : List UInt32} (h1 : Canonical as1) (hlen : asset.length < 65536) :
    Canonical ((parting as1 as2).lead ++ setOf asset) := by
  have hlead : Canonical (parting as1 as2).lead :=
    (lead_trimmed fun seg hseg => (h1.segs seg hseg).nonempty).canonical h1
  unfold setOf
  split_ifs with hnil
  · rwa [append_nil]
  have hset : (assegmentSort (assegmentWith .asSet asset)).WellFormed :=
    assegmentSort_wellFormed (by rwa [assegmentWith_as hlen])
  refine (canonical_append hlead (canonical_cons.2 ⟨hset, by simp, .nil⟩)).2 fun y _ z hz htype => ?_
  obtain rfl := Option.mem_some_iff.1 hz
  rw [htype]
  rfl

theorem aspathAggregate_canonical_iff (h1 : Canonical as1) :
    (∃ p, aspathAggregate as1 as2 = some p ∧ Canonical p) ↔ AggregateKeeps as1 as2 := by
  rw [AggregateKeeps, ← foldlM_aggregateAsSetAdd_iff]
  simp only [aspathAggregate_eq_some_iff h1.normalised]
  constructor
  · rintro ⟨p, ⟨asset, hfold, -⟩, -⟩
    exact ⟨asset, hfold⟩
  · rintro ⟨asset, hfold⟩
    obtain ⟨-, hlen, -⟩ := mem_of_foldlM nodup_nil (by decide) hfold
    exact ⟨_, ⟨asset, hfold, rfl⟩, canonical_lead_setOf h1 hlen⟩

/-! ## All numbers -/

/-- All numbers of the two paths are kept, and behind the common leading part is one AS_SET at most. -/
structure AggregatesAll (as1 as2 p : Aspath) : Prop where
  asns : ∀ a, a ∈ p.flatMap (·.as) ↔ a ∈ as1.flatMap (·.as) ∨ a ∈ as2.flatMap (·.as)
  lead : ∃ set : Aspath, p = (parting as1 as2).lead ++ set ∧ set.length ≤ 1 ∧ ∀ seg ∈ set, seg.type = .asSet

/-- What is passed over occurs elsewhere, and the set is not too large. -/
def Parting.Keeps (d : Parting) : Prop :=
  (∀ a ∈ d.passedOver, a ∈ d.lead.flatMap (·.as) ∨ a ∈ d.rest) ∧ d.rest.toFinset.card < 65536

theorem parting_mem_iff : (a ∈ (parting as1 as2).lead.flatMap (·.as) ∨ a ∈ (parting as1 as2).rest) ∨
    a ∈ (parting as1 as2).passedOver ↔ a ∈ as1.flatMap (·.as) ∨ a ∈ as2.flatMap (·.as) := by
  obtain ⟨h1, h2⟩ := parting_eq as1 as2
  rw [Parting.mem_iff]
  generalize parting as1 as2 = d at h1 h2 ⊢
  rw [h1, h2, flatMap_append, flatMap_append, mem_append, mem_append]
  tauto

/-- Aggregation keeps all numbers exactly where those that are passed over occur elsewhere. -/
theorem aspathAggregate_all_iff (as1 as2 : Aspath) (h1 : Normalised as1) :
    (∃ p, aspathAggregate as1 as2 = some p ∧ AggregatesAll as1 as2 p) ↔ (parting as1 as2).Keeps := by
  constructor
  · rintro ⟨p, hp, hall⟩
    obtain ⟨asset, hfold, rfl⟩ := (aspathAggregate_eq_some_iff h1).1 hp
    obtain ⟨-, hlen, hmem⟩ := mem_of_foldlM nodup_nil (by decide) hfold
    refine ⟨fun a ha => ?_, foldlM_aggregateAsSetAdd_iff.1 ⟨asset, hfold⟩⟩
    have hmemb := (hall.asns a).2 (parting_mem_iff.1 (.inr ha))
    rw [flatMap_append, mem_append, mem_setOf hlen, hmem] at hmemb
    exact hmemb.imp_right fun h => h.resolve_left not_mem_nil
  · rintro ⟨hpassed, hcard⟩
    obtain ⟨asset, hfold⟩ := foldlM_aggregateAsSetAdd_iff.2 hcard
    obtain ⟨-, hlen, hmem⟩ := mem_of_foldlM nodup_nil (by decide) hfold
    refine ⟨_, (aspathAggregate_eq_some_iff h1).2 ⟨asset, hfold, rfl⟩, fun a => ?_, setOf asset, rfl, ?_, ?_⟩
    · rw [flatMap_append, mem_append, mem_setOf hlen, hmem, or_iff_right not_mem_nil, ← parting_mem_iff]
      exact ⟨.inl, fun h => h.elim id (hpassed a)⟩
    · unfold setOf
      split <;> simp
    · unfold setOf
      split <;> simp

/-- Two paths that part in their first segment. -/
theorem aspathAggregate_all_parted :
    ∃ p, aspathAggregate [assegmentWith .asSequence [1, 2]] [assegmentWith .asSequence [1, 3]] =
    some p ∧ AggregatesAll [assegmentWith .asSequence [1, 2]] [assegmentWith .asSequence [1, 3]] p :=
  (aspathAggregate_all_iff _ _ (normalised_singleton_sequence (by simp) (by simp))).2
    ⟨fun _ h => absurd h not_mem_nil, by decide +kernel⟩

/-- The first path ends after an equal segment of one number, and the set behind it in the second one is lost. -/
theorem not_aspathAggregate_all_set : Normalised [assegmentWith .asSequence [1]] ∧
    Normalised [assegmentWith .asSequence [1], assegmentWith .asSet [2]] ∧
    ¬ ∃ p,
      aspathAggregate [assegmentWith .asSequence [1]] [assegmentWith .asSequence [1], assegmentWith .asSet [2]] =
        some p ∧
      AggregatesAll [assegmentWith .asSequence [1]] [assegmentWith .asSequence [1], assegmentWith .asSet [2]] p := by
  have hone : Normalised [assegmentWith .asSequence [1]] := normalised_singleton_sequence (by simp) (by simp)
  refine ⟨hone, normalised_cons.2 ⟨hone.segs _ (mem_cons_self ..), by decide, ?_⟩, ?_⟩
  · exact normalised_cons.2 ⟨⟨by decide, fun _ => by decide⟩, by decide, by simp, .nil⟩
  · rintro ⟨p, hp, hall⟩
    have hrun : aspathAggregate [assegmentWith .asSequence [1]]
      [assegmentWith .asSequence [1], assegmentWith .asSet [2]] = some [assegmentWith .asSequence [1]] := by decide
    cases hrun.symm.trans hp
    exact absurd ((hall.asns 2).2 (.inr (by decide))) (by decide)

end Tarpan.Bgpd
