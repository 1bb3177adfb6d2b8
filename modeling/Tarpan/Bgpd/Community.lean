/-
Communities, extended communities and cluster lists as they are read from an UPDATE
(bgp_community.c, bgp_ecommunity.c, `cluster_parse` of bgp_attr.c). Interned values stand for
themselves.
-/
import Mathlib.Data.List.Sort
import Tarpan.Lib.Sockunion

namespace Tarpan.Bgpd

open Base Lib List

def wordsOf : List UInt8 → List UInt32
  | a :: b :: c :: d :: octets => UInt32.ofNat (beVal [a, b, c, d]) :: wordsOf octets
  | _ => []

/-- The body of the loop of `community_uniq_sort`. -/
def communityAdd (new : List UInt32) (val : UInt32) : List UInt32 := if new.contains val then new else new ++ [val]
def communityUniqSort (com : List UInt32) : List UInt32 := (com.foldl communityAdd []).insertionSort (· ≤ ·)

def communityParse (octets : List UInt8) : Option (List UInt32) :=
  if octets.length % 4 = 0 then some (communityUniqSort (wordsOf octets)) else none

def ecommunitySize : Nat := 8

/-- `ecommunity_add_val`: the values are kept in the order of `memcmp`. -/
def ecommunityAddVal : List (List UInt8) → List UInt8 → List (List UInt8)
  | [], eval => [eval]
  | p :: ecom, eval =>
    match octetsCmp p eval with
    | .eq => p :: ecom
    | .gt => eval :: p :: ecom
    | .lt => p :: ecommunityAddVal ecom eval

def ecommunityUniqSort (ecom : List (List UInt8)) : List (List UInt8) := ecom.foldl ecommunityAddVal []

def ecommunityParse (octets : List UInt8) : Option (List (List UInt8)) :=
  if octets.length % ecommunitySize = 0 then some (ecommunityUniqSort (octets.toChunks ecommunitySize)) else none

def clusterParse (octets : List UInt8) : List UInt32 := wordsOf octets

/-! ## What is written -/

def wordOctets (l : List UInt32) : List UInt8 := l.flatMap fun w => beBytes 4 w.toNat

@[simp] theorem wordOctets_length (l : List UInt32) : (wordOctets l).length = l.length * 4 := by
  simp [wordOctets]

theorem wordsOf_wordOctets : ∀ l : List UInt32, wordsOf (wordOctets l) = l
  | [] => rfl
  | w :: l => by
    have hw : w.toNat < 256 ^ 4 := w.toNat_lt
    have ih := wordsOf_wordOctets l
    unfold wordOctets at ih ⊢
    change UInt32.ofNat (beVal (beBytes 4 w.toNat)) :: wordsOf (l.flatMap fun w => beBytes 4 w.toNat) = _
    rw [beVal_beBytes hw, UInt32.ofNat_toNat, ih]

/-- A list in the order of `community_uniq_sort` is read as it was written. -/
theorem communityParse_wordOctets {l : List UInt32} (h : communityUniqSort l = l) :
    communityParse (wordOctets l) = some l := by
  rw [communityParse, if_pos (by rw [wordOctets_length, Nat.mul_mod_left]), wordsOf_wordOctets, h]

section Chunks
variable {α : Type*} {n : Nat}

theorem toChunks_go_append (rest : List α) : ∀ (a : List α) (acc1 : Array α) (acc2 : Array (List α)),
    acc1.size + a.length ≤ n → toChunks.go n (a ++ rest) acc1 acc2 = toChunks.go n rest (acc1 ++ a.toArray) acc2
  | [], acc1, acc2, _ => by simp
  | x :: a, acc1, acc2, h => by
    rw [length_cons] at h
    have hne : (acc1.size == n) = false := by
      rw [beq_eq_false_iff_ne]
      omega
    rw [cons_append, toChunks.go, hne, if_neg Bool.false_ne_true,
      toChunks_go_append rest a (acc1.push x) acc2 (by rw [Array.size_push]; omega)]
    simp

theorem toChunks_go_flatten (hn : 0 < n) : ∀ (l : List (List α)) (acc1 : Array α) (acc2 : Array (List α)),
    acc1.size = n → (∀ c ∈ l, c.length = n) → toChunks.go n l.flatten acc1 acc2 = acc2.toList ++ acc1.toList :: l
  | [], acc1, acc2, _, _ => by simp [toChunks.go]
  | c :: l, acc1, acc2, hacc, hl => by
    have hc := hl c mem_cons_self
    cases c with
    | nil => exact absurd hc hn.ne
    | cons x c =>
      rw [flatten_cons, cons_append, toChunks.go, if_pos (beq_iff_eq.2 hacc),
        toChunks_go_append _ c _ _ (by rw [← hc]; simp; omega),
        toChunks_go_flatten hn l _ _ (by rw [← hc]; simp) fun c' hc' => hl c' (mem_cons_of_mem _ hc')]
      simp

theorem toChunks_flatten (hn : 0 < n) {l : List (List α)} (hl : ∀ c ∈ l, c.length = n) : l.flatten.toChunks n = l := by
  cases l with
  | nil => rfl
  | cons c l =>
    have hc := hl c mem_cons_self
    cases c with
    | nil => exact absurd hc hn.ne
    | cons x c =>
      obtain ⟨n, rfl⟩ := Nat.exists_eq_add_one_of_ne_zero hn.ne'
      rw [flatten_cons, cons_append, toChunks, toChunks_go_append _ c _ _ (by rw [← hc]; simp; omega),
        toChunks_go_flatten hn l _ _ (by rw [← hc]; simp) fun c' hc' => hl c' (mem_cons_of_mem _ hc')]
      · simp
      · exact hn.ne'

end Chunks

/-- A list in the order of `ecommunity_uniq_sort` is read as it was written. -/
theorem ecommunityParse_flatten {l : List (List UInt8)} (hl : ∀ val ∈ l, val.length = ecommunitySize)
    (h : ecommunityUniqSort l = l) : ecommunityParse l.flatten = some l := by
  have hlen : l.flatten.length = l.length * ecommunitySize := by
    rw [length_flatten, map_congr_left hl]
    simp
  rw [ecommunityParse, if_pos (by rw [hlen, Nat.mul_mod_left]), toChunks_flatten (by decide) hl, h]

/-! ## Lists of communities as sets -/

/-- `community_match`; its loop is that of `isSublist`, and null pointers are equal. -/
def communityMatch : Option (List UInt32) → Option (List UInt32) → Bool
  | none, none => true
  | some com1, some com2 => com2.length ≤ com1.length && com2.isSublist com1
  | _, _ => false

def communityMerge (com1 com2 : List UInt32) : List UInt32 := com1 ++ com2

/-- `community_delete`; `community_del_val` takes the first occurrence out. -/
def communityDelete (com1 com2 : List UInt32) : List UInt32 := com2.foldl List.erase com1

theorem foldl_communityAdd : ∀ (com : List UInt32) {new : List UInt32}, new.Nodup →
    (com.foldl communityAdd new).Nodup ∧ ∀ v, v ∈ com.foldl communityAdd new ↔ v ∈ new ∨ v ∈ com
  | [], new, h => ⟨h, by simp⟩
  | val :: com, new, h => by
    have hadd : (communityAdd new val).Nodup ∧ ∀ v, v ∈ communityAdd new val ↔ v ∈ new ∨ v = val := by
      unfold communityAdd
      split <;> rename_i hval
      · refine ⟨h, fun v => (or_iff_left_of_imp ?_).symm⟩
        rintro rfl
        simpa using hval
      · exact ⟨h.append (nodup_singleton val) (by simpa using hval), by simp⟩
    obtain ⟨hnd, hmem⟩ := foldl_communityAdd com hadd.1
    exact ⟨hnd, fun v => by rw [foldl_cons, hmem, hadd.2, mem_cons, or_assoc]⟩

theorem mem_communityUniqSort {com : List UInt32} {v : UInt32} : v ∈ communityUniqSort com ↔ v ∈ com := by
  simp [communityUniqSort, (foldl_communityAdd com nodup_nil).2]

theorem communityUniqSort_increasing (com : List UInt32) : (communityUniqSort com).Pairwise (· < ·) := by
  have hnd := (perm_insertionSort (· ≤ ·) _).nodup_iff.2 (foldl_communityAdd com nodup_nil).1
  have hsrt := pairwise_insertionSort (· ≤ ·) (com.foldl communityAdd [])
  exact (hsrt.and hnd).imp fun h => UInt32.lt_of_le_of_ne h.1 h.2

theorem communitySets_right {com1 com2 : List UInt32} (h1 : com1.Pairwise (· < ·)) (h2 : com2.Pairwise (· < ·))
    (com : List UInt32) : ((communityUniqSort com).Pairwise (· < ·) ∧ ∀ v, v ∈ communityUniqSort com ↔ v ∈ com) ∧
      (communityMatch (some com1) (some com2) = true ↔ com2 ⊆ com1) ∧
      (∀ v, v ∈ communityUniqSort (communityMerge com1 com2) ↔ v ∈ com1 ∨ v ∈ com2) ∧
      (communityDelete com1 com2).Pairwise (· < ·) ∧ ∀ v, v ∈ communityDelete com1 com2 ↔ v ∈ com1 ∧ v ∉ com2 := by
  have hdel : communityDelete com1 com2 = com1.diff com2 := (diff_eq_foldl com1 com2).symm
  have hnd : com1.Nodup := h1.imp UInt32.ne_of_lt
  refine ⟨⟨communityUniqSort_increasing com, fun v => mem_communityUniqSort⟩, ?_, ?_, ?_, ?_⟩
  · rw [communityMatch, Bool.and_eq_true, isSublist_iff_sublist, decide_eq_true_eq]
    constructor
    · exact fun h => h.2.subset
    · intro h
      have hsub : com2 <+ com1 := sublist_of_subperm_of_pairwise (subperm_of_subset (h2.imp UInt32.ne_of_lt) h) h2 h1
      exact ⟨hsub.length_le, hsub⟩
  · intro v
    rw [mem_communityUniqSort, communityMerge, mem_append]
  · rw [hdel]
    exact h1.sublist (diff_sublist com1 com2)
  · intro v
    rw [hdel, hnd.mem_sdiff_iff]

theorem communitySets_right_some : communityUniqSort [7, 3, 7, 1] = [1, 3, 7] ∧
    (communityMatch (some [1, 3, 7]) (some [3, 7]) = true ↔ ([3, 7] : List UInt32) ⊆ [1, 3, 7]) :=
  ⟨by decide, (@communitySets_right [1, 3, 7] [3, 7] (by decide) (by decide) []).2.1⟩

/-! ## Extended communities -/

/-- What `ecommunity_match` compares: `i` and `j` count values, and it adds them to pointers to octets. -/
def ecommunityWindows : Nat → List UInt8 → List (List UInt8)
  | 0, _ => []
  | size + 1, val => val.take ecommunitySize :: ecommunityWindows size (val.drop 1)

/-- `ecommunity_match`, with the same loop. -/
def ecommunityMatch : Option (List (List UInt8)) → Option (List (List UInt8)) → Bool
  | none, none => true
  | some ecom1, some ecom2 => ecom2.length ≤ ecom1.length &&
    (ecommunityWindows ecom2.length ecom2.flatten).isSublist (ecommunityWindows ecom1.length ecom1.flatten)
  | _, _ => false

section Windows
variable {m n : Nat} {l1 l2 : List UInt8}

theorem ecommunityWindows_append (n : Nat) : ∀ (m : Nat) (l : List UInt8),
    ecommunityWindows (m + n) l = ecommunityWindows m l ++ ecommunityWindows n (l.drop m)
  | 0, l => by simp [ecommunityWindows]
  | m + 1, l => by
    rw [Nat.add_right_comm, ecommunityWindows, ecommunityWindows, ecommunityWindows_append n m, drop_drop,
      Nat.add_comm 1, cons_append]

theorem ecommunityWindows_congr : ∀ {m : Nat} {l1 l2 : List UInt8}, l1.take (m + 7) = l2.take (m + 7) →
    ecommunityWindows m l1 = ecommunityWindows m l2
  | 0, _, _, _ => rfl
  | m + 1, l1, l2, h => by
    have hhead := congrArg (take 8) h
    have htail := congrArg (drop 1) h
    rw [take_take, take_take, Nat.min_eq_left (by omega)] at hhead
    rw [drop_take, drop_take] at htail
    rw [ecommunityWindows, ecommunityWindows, ecommunitySize, hhead, ecommunityWindows_congr htail]

/-- Octets that stand in one piece are found. -/
theorem ecommunityWindows_sublist {i : Nat} (hi : i + m ≤ n) (h : l2.take (m + 7) = (l1.drop i).take (m + 7)) :
    ecommunityWindows m l2 <+ ecommunityWindows n l1 := by
  obtain ⟨k, rfl⟩ := Nat.exists_eq_add_of_le hi
  rw [ecommunityWindows_congr h, Nat.add_assoc, ecommunityWindows_append, ecommunityWindows_append]
  exact (sublist_append_left ..).trans (sublist_append_right ..)

theorem ecommunityWindows_found :
    ∀ {n : Nat} {l1 : List UInt8}, ecommunityWindows (m + 1) l2 <+ ecommunityWindows n l1 →
    ∃ i k, n = i + 1 + k ∧ l2.take ecommunitySize = (l1.drop i).take ecommunitySize ∧
      ecommunityWindows m (l2.drop 1) <+ ecommunityWindows k (l1.drop (i + 1))
  | 0, l1, h => by cases h
  | n + 1, l1, h => by
    rw [ecommunityWindows, ecommunityWindows, cons_sublist_cons'] at h
    rcases h with h | ⟨heq, h⟩
    · obtain ⟨i, k, rfl, hi, hk⟩ := ecommunityWindows_found h
      rw [drop_drop] at hi hk
      exact ⟨1 + i, k, by omega, hi, by rwa [Nat.add_assoc]⟩
    · exact ⟨0, n, by omega, heq, h⟩

/-- No seven octets stand at two of the octets 1 to `n - 1`. -/
def NoneTwice (n : Nat) (l : List UInt8) : Prop :=
  ∀ i < n, ∀ j < n, 0 < i → 0 < j → (l.drop i).take 7 = (l.drop j).take 7 → i = j

theorem take_congr_of_drop {k : Nat} (hk : 0 < k) (h1 : l1.take k = l2.take k)
    (h : (l1.drop 1).take m = (l2.drop 1).take m) : l1.take (m + 1) = l2.take (m + 1) := by
  obtain ⟨k, rfl⟩ := Nat.exists_eq_add_of_lt hk
  cases l1 <;> cases l2 <;> simp_all

theorem stands_of_ecommunityWindows : ∀ {m n : Nat} {l1 l2 : List UInt8}, NoneTwice n l1 →
    ecommunityWindows (m + 1) l2 <+ ecommunityWindows n l1 →
    ∃ i, i + (m + 1) ≤ n ∧ l2.take (m + 8) = (l1.drop i).take (m + 8)
  | 0, n, l1, l2, _, h => by
    obtain ⟨i, k, rfl, hi, -⟩ := ecommunityWindows_found h
    exact ⟨i, by omega, hi⟩
  | m + 1, n, l1, l2, hnone, h => by
    obtain ⟨i, k, rfl, hi, hk⟩ := ecommunityWindows_found h
    have hnone' : NoneTwice k (l1.drop (i + 1)) := by
      intro a ha b hb _ _ hab
      rw [drop_drop, drop_drop] at hab
      have := hnone _ (by omega) _ (by omega) (by omega) (by omega) hab
      omega
    obtain ⟨i', hle, hi'⟩ := stands_of_ecommunityWindows hnone' hk
    rw [drop_drop] at hi'
    -- The seven octets that both pieces share stand at one octet only, so that the pieces follow each other.
    have hnext : i + 1 = i + 1 + i' := by
      refine hnone _ (by omega) _ (by omega) (by omega) (by omega) ?_
      have h1 := congrArg (drop 1) hi
      have h2 := congrArg (take 7) hi'
      rw [drop_take, drop_take, drop_drop] at h1
      rw [take_take, take_take, Nat.min_eq_left (by omega)] at h2
      exact h1.symm.trans h2
    refine ⟨i, by omega, take_congr_of_drop (k := 8) (by decide) hi ?_⟩
    rw [drop_drop, hi', ← hnext]

theorem ecommunityWindows_length : ∀ (n : Nat) (l : List UInt8), (ecommunityWindows n l).length = n
  | 0, _ => rfl
  | n + 1, l => by rw [ecommunityWindows, length_cons, ecommunityWindows_length n]

end Windows

/-- The lists that `ecommunity_add_val` builds. -/
inductive EcomBuilt : List (List UInt8) → Prop
  | new : EcomBuilt []
  | addVal {ecom : List (List UInt8)} {eval : List UInt8} (h : EcomBuilt ecom) (hlen : eval.length = ecommunitySize) :
    EcomBuilt (ecommunityAddVal ecom eval)

variable {ecom ecom1 ecom2 : List (List UInt8)}

theorem mem_of_ecommunityAddVal {eval v : List UInt8} :
    ∀ {ecom : List (List UInt8)}, v ∈ ecommunityAddVal ecom eval → v = eval ∨ v ∈ ecom
  | [], h => .inl (mem_singleton.1 h)
  | p :: ecom, h => by
    unfold ecommunityAddVal at h
    split at h
    · exact .inr h
    · exact mem_cons.1 h
    · rcases mem_cons.1 h with rfl | h
      · exact .inr (mem_cons_self ..)
      · exact (mem_of_ecommunityAddVal h).imp id (mem_cons_of_mem p)

theorem EcomBuilt.length_of_mem {v : List UInt8} (h : EcomBuilt ecom) (hv : v ∈ ecom) : v.length = ecommunitySize := by
  induction h with
  | new => cases hv
  | addVal _ hlen ih =>
    rcases mem_of_ecommunityAddVal hv with rfl | hv
    · exact hlen
    · exact ih hv

theorem EcomBuilt.length_flatten (h : EcomBuilt ecom) : ecom.flatten.length = ecom.length * ecommunitySize := by
  rw [List.length_flatten, map_congr_left fun v hv => h.length_of_mem hv, map_const', sum_replicate_nat]

/-- The first `k` octets of the second list stand in the first one, where there is place for the walk over the second
one. -/
def EcomStands (k : Nat) (ecom1 ecom2 : List (List UInt8)) : Prop :=
  ∃ i, i + ecom2.length ≤ ecom1.length ∧ ecom2.flatten.take k <+: ecom1.flatten.drop i

theorem EcomBuilt.stands_iff {k : Nat} (h : EcomBuilt ecom2) (hk : k ≤ ecom2.length * ecommunitySize) :
    EcomStands k ecom1 ecom2 ↔
      ∃ i, i + ecom2.length ≤ ecom1.length ∧ ecom2.flatten.take k = (ecom1.flatten.drop i).take k := by
  refine exists_congr fun i => and_congr Iff.rfl ?_
  rw [prefix_iff_eq_take, length_take_of_le (hk.trans h.length_flatten.ge)]

theorem ecommunityMatch_eq_true : ecommunityMatch (some ecom1) (some ecom2) = true ↔
    ecommunityWindows ecom2.length ecom2.flatten <+ ecommunityWindows ecom1.length ecom1.flatten := by
  rw [ecommunityMatch, Bool.and_eq_true, isSublist_iff_sublist]
  refine ⟨And.right, fun h => ⟨decide_eq_true ?_, h⟩⟩
  have := h.length_le
  rwa [ecommunityWindows_length, ecommunityWindows_length] at this

theorem EcomBuilt.match_of_stands (h : EcomBuilt ecom2) (hst : EcomStands (ecom2.length + 7) ecom1 ecom2) :
    ecommunityMatch (some ecom1) (some ecom2) = true := by
  refine ecommunityMatch_eq_true.2 ?_
  cases ecom2 with
  | nil => exact nil_sublist _
  | cons v ecom2 =>
    obtain ⟨i, hi, heq⟩ := (h.stands_iff (by rw [length_cons, ecommunitySize]; omega)).1 hst
    exact ecommunityWindows_sublist hi heq

theorem EcomBuilt.first_stands (h : EcomBuilt ecom2) (hmat : ecommunityMatch (some ecom1) (some ecom2) = true) :
    EcomStands ecommunitySize ecom1 ecom2 := by
  cases ecom2 with
  | nil => exact ⟨0, Nat.zero_le _, nil_prefix⟩
  | cons v ecom2 =>
    refine (h.stands_iff (by rw [length_cons, ecommunitySize]; omega)).2 ?_
    obtain ⟨i, k, hik, hi, hk⟩ := ecommunityWindows_found (ecommunityMatch_eq_true.1 hmat)
    have := hk.length_le
    rw [ecommunityWindows_length, ecommunityWindows_length] at this
    exact ⟨i, by rw [length_cons]; omega, hi⟩

/-- Where no piece of the first list occurs twice the walk is a search for the second list in it, octet by octet. -/
theorem EcomBuilt.match_iff_stands (h : EcomBuilt ecom2)
    (hnone : ecom2.length ≤ 1 ∨ NoneTwice ecom1.length ecom1.flatten) :
    ecommunityMatch (some ecom1) (some ecom2) = true ↔ EcomStands (ecom2.length + 7) ecom1 ecom2 := by
  refine ⟨fun hmat => ?_, h.match_of_stands⟩
  cases ecom2 with
  | nil => exact ⟨0, Nat.zero_le _, nil_prefix⟩
  | cons v ecom2 =>
    rcases hnone with hone | hnone
    · obtain rfl : ecom2 = [] := length_eq_zero_iff.1 (by rw [length_cons] at hone; omega)
      exact h.first_stands hmat
    · refine (h.stands_iff (by rw [length_cons, ecommunitySize]; omega)).2 ?_
      exact stands_of_ecommunityWindows hnone (ecommunityMatch_eq_true.1 hmat)

/-- The function tells whether all values of the second list are in the first one where they are and the octets of the
second list stand in the first one, or where they are not and those of its first value do not stand there. For most
lists this is exact. -/
theorem ecommunityMatch_includes (h : EcomBuilt ecom2) :
    ((ecom2 ⊆ ecom1 ∧ EcomStands (ecom2.length + 7) ecom1 ecom2) ∨
        (¬ ecom2 ⊆ ecom1 ∧ ¬ EcomStands ecommunitySize ecom1 ecom2) →
      (ecommunityMatch (some ecom1) (some ecom2) = true ↔ ecom2 ⊆ ecom1)) ∧
    (ecom2.length ≤ 1 ∨ NoneTwice ecom1.length ecom1.flatten →
      ((ecommunityMatch (some ecom1) (some ecom2) = true ↔ ecom2 ⊆ ecom1) ↔
        (EcomStands (ecom2.length + 7) ecom1 ecom2 ↔ ecom2 ⊆ ecom1))) := by
  refine ⟨?_, fun hnone => iff_congr (h.match_iff_stands hnone) Iff.rfl⟩
  rintro (⟨hsub, hst⟩ | ⟨hsub, hst⟩)
  · exact iff_of_true (h.match_of_stands hst) hsub
  · exact iff_of_false (fun hmat => hst (h.first_stands hmat)) hsub

/-- The route target 1:`n`. -/
def routeTarget (n : UInt8) : List UInt8 := [0, 2, 0, 1, 0, 0, 0, n]

theorem routeTargets_built : EcomBuilt [routeTarget 1, routeTarget 2] :=
  @EcomBuilt.addVal _ (routeTarget 2) (@EcomBuilt.addVal _ (routeTarget 1) .new rfl) rfl

theorem ecommunityMatch_includes_first :
    ecommunityMatch (some [routeTarget 1, routeTarget 2, routeTarget 3]) (some [routeTarget 1, routeTarget 2]) = true :=
  have hst : EcomStands 9 [routeTarget 1, routeTarget 2, routeTarget 3] [routeTarget 1, routeTarget 2] :=
    ⟨0, by decide, by decide⟩
  ((ecommunityMatch_includes routeTargets_built).1 (.inl ⟨by decide, hst⟩)).2 (by decide)

/-- Both values of the list are there, the second one is not found. -/
theorem ecommunityMatch_second : EcomBuilt [routeTarget 1, routeTarget 2] ∧ EcomBuilt [routeTarget 2] ∧
    ecommunityMatch (some [routeTarget 1, routeTarget 2]) (some [routeTarget 2]) = false ∧
      [routeTarget 2] ⊆ [routeTarget 1, routeTarget 2] :=
  ⟨routeTargets_built, @EcomBuilt.addVal _ (routeTarget 2) .new rfl, by decide, by decide⟩

end Tarpan.Bgpd
