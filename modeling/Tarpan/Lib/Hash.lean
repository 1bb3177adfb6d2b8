/-
The hash table of lib/hash.c: chains of backets, looked up by the full key and then by the
comparison function, which doubles its index when a chain grows long. Where a backet is kept does
not show from outside: the table is a collection of keyed data, and expansion leaves it as it is.
-/
import Mathlib.Data.Nat.Bitwise
import Mathlib.Data.List.Basic
import Mathlib.Data.List.Pairwise
import Tarpan.Base.Runs

namespace Tarpan.Lib

open Base List Function Option

/-- `struct hash_backet` without its link. -/
structure HashBacket (α : Type) where
  key : UInt32
  data : α

/-- `HASH_INITIAL_SIZE` is 256. -/
def hashInitialBits : Nat := 8
def hashThreshold : Nat := 10

/-- `key & (size - 1)` for the size `2 ^ bits`. -/
def hashSlot (bits : Nat) (key : UInt32) : Nat := key.toNat &&& (2 ^ bits - 1)

theorem hashSlot_lt (bits : Nat) (key : UInt32) : hashSlot bits key < 2 ^ bits := by
  rw [hashSlot, Nat.and_two_pow_sub_one_eq_mod]
  exact Nat.mod_lt _ (Nat.two_pow_pos bits)

/-- `struct hash`. The size is a power of two (`hash_create_size` asserts it), and every backet is
in the chain that its key selects. -/
structure Hash (α : Type) where
  bits : Nat
  index : Nat → List (HashBacket α)
  noExpand : Bool
  count : Nat
  placed : ∀ i, ∀ b ∈ index i, hashSlot bits b.key = i

variable {α : Type} {b : HashBacket α} {h : Hash α}

def hashCreate : Hash α where
  bits := hashInitialBits
  index := fun _ => []
  noExpand := false
  count := 0
  placed := by simp

/-- The backets in the order in which `hash_expand` visits them. -/
def Hash.backets (h : Hash α) : List (HashBacket α) := (range (2 ^ h.bits)).flatMap h.index

/-- The chain `i` of the expanded index: each backet visited goes to the front of its new chain. -/
def Hash.rechained (h : Hash α) (i : Nat) : List (HashBacket α) :=
  (h.backets.filter fun b => hashSlot (h.bits + 1) b.key = i).reverse

/-- `hash_expand`. The losers are the backets behind the fifth of their chain. -/
def hashExpand (h : Hash α) : Hash α where
  bits := h.bits + 1
  index := h.rechained
  noExpand :=
    let lengths := (range (2 ^ (h.bits + 1))).map fun i => (h.rechained i).length
    h.noExpand || lengths.any (· ≥ hashThreshold) || (lengths.map (· - hashThreshold / 2)).sum > h.count / 2
  count := h.count
  placed := by
    intro i b hb
    have hb' := mem_reverse.1 hb
    simpa using (mem_filter.1 hb').2

/-- A new backet at the front of its chain. -/
def hashPush (h : Hash α) (b : HashBacket α) : Hash α where
  bits := h.bits
  index := update h.index (hashSlot h.bits b.key) (b :: h.index (hashSlot h.bits b.key))
  noExpand := h.noExpand
  count := h.count + 1
  placed := by
    intro i c hc
    by_cases hi : i = hashSlot h.bits b.key
    · subst hi
      rw [update_self] at hc
      rcases mem_cons.1 hc with rfl | hc
      · rfl
      · exact h.placed _ c hc
    · rw [update_of_ne hi] at hc
      exact h.placed i c hc

section Functions
variable (hashKey : α → UInt32) (hashCmp : α → α → Bool)

/-- The test of the lookup loops: the keys are equal and so are the data. -/
def hashMatch (data : α) (b : HashBacket α) : Bool := b.key == hashKey data && hashCmp b.data data

/-- The lookup loop of `hash_get` and `hash_release`. -/
def hashFind (h : Hash α) (data : α) : Option (HashBacket α) :=
  (h.index (hashSlot h.bits (hashKey data))).find? (hashMatch hashKey hashCmp data)

/-- `hash_get`; `allocFunc` is asked only when nothing is found. -/
def hashGet (h : Hash α) (data : α) (allocFunc : α → Option α) : Option α × Hash α :=
  match hashFind hashKey hashCmp h data with
  | some b => (some b.data, h)
  | none =>
    match allocFunc data with
    | none => (none, h)
    | some newdata =>
      let len := (h.index (hashSlot h.bits (hashKey data))).length
      let h := if len > hashThreshold ∧ h.noExpand = false then hashExpand h else h
      (some newdata, hashPush h ⟨hashKey data, newdata⟩)

/-- `hash_release`: the first match is unlinked. -/
def hashRelease (h : Hash α) (data : α) : Option α × Hash α :=
  match hashFind hashKey hashCmp h data with
  | none => (none, h)
  | some b =>
    (some b.data,
      { h with
        index := update h.index (hashSlot h.bits (hashKey data))
          ((h.index (hashSlot h.bits (hashKey data))).eraseP (hashMatch hashKey hashCmp data))
        count := h.count - 1
        placed := by
          intro i c hc
          by_cases hi : i = hashSlot h.bits (hashKey data)
          · subst hi
            rw [update_self] at hc
            exact h.placed _ c (mem_of_mem_eraseP hc)
          · rw [update_of_ne hi] at hc
            exact h.placed i c hc })

end Functions

/-! ## The table as a collection -/

/-- The backet is in the table. -/
def Hash.Holds (h : Hash α) (b : HashBacket α) : Prop := b ∈ h.index (hashSlot h.bits b.key)

theorem Hash.holds_iff : h.Holds b ↔ ∃ i, b ∈ h.index i := by
  constructor
  · intro hb
    exact ⟨_, hb⟩
  · rintro ⟨i, hb⟩
    unfold Hash.Holds
    rw [h.placed i b hb]
    exact hb

theorem Hash.mem_backets : b ∈ h.backets ↔ h.Holds b := by
  constructor
  · intro hb
    obtain ⟨i, -, hi⟩ := mem_flatMap.1 hb
    exact Hash.holds_iff.2 ⟨i, hi⟩
  · intro hb
    exact mem_flatMap.2 ⟨_, mem_range.2 (hashSlot_lt _ _), hb⟩

@[simp] theorem hashCreate_holds (b : HashBacket α) : ¬ (hashCreate : Hash α).Holds b := by
  intro h
  cases h

@[simp] theorem hashExpand_holds (h : Hash α) (b : HashBacket α) : (hashExpand h).Holds b ↔ h.Holds b := by
  show b ∈ h.rechained (hashSlot (h.bits + 1) b.key) ↔ h.Holds b
  rw [Hash.rechained, mem_reverse, mem_filter, Hash.mem_backets]
  constructor
  · exact fun hb => hb.1
  · intro hb
    exact ⟨hb, by simp⟩

@[simp] theorem hashPush_holds (h : Hash α) (b c : HashBacket α) : (hashPush h c).Holds b ↔ b = c ∨ h.Holds b := by
  show b ∈ update h.index (hashSlot h.bits c.key) (c :: h.index (hashSlot h.bits c.key))
    (hashSlot h.bits b.key) ↔ b = c ∨ b ∈ h.index (hashSlot h.bits b.key)
  by_cases hi : hashSlot h.bits b.key = hashSlot h.bits c.key
  · rw [hi, update_self, mem_cons]
  rw [update_of_ne hi]
  constructor
  · exact Or.inr
  · rintro (rfl | hb)
    · exact absurd rfl hi
    · exact hb

/-! ## Tables without two matching backets -/

/-- Where no two elements are both chosen, the chosen one goes. -/
theorem mem_eraseP_iff {β : Type} {r : β → β → Prop} {p : β → Bool} {l : List β} (hl : l.Pairwise fun a b => ¬ r a b)
    (hp : ∀ a b, p a = true → p b = true → r a b) {x : β} : x ∈ l.eraseP p ↔ x ∈ l ∧ p x = false := by
  by_cases hx : p x = true
  · refine iff_of_false (fun hmem => ?_) (by simp [hx])
    obtain ⟨a, l1, l2, hno, ha, hl', herase⟩ := exists_of_eraseP (mem_of_mem_eraseP hmem) hx
    rw [hl', pairwise_append, pairwise_cons] at hl
    rw [herase, mem_append] at hmem
    exact hmem.elim (hno x · hx) fun hmem => hl.2.1.1 x hmem (hp a x ha hx)
  · simp [hx]

section Distinct
variable {hashKey : α → UInt32} {hashCmp : α → α → Bool}

/-- No chain holds two backets of one key whose data compare equal. -/
def Hash.Distinct (hashCmp : α → α → Bool) (h : Hash α) : Prop :=
  ∀ i, (h.index i).Pairwise fun b c => ¬ (b.key = c.key ∧ hashCmp b.data c.data = true)

variable {data : α} {b : HashBacket α}

theorem hashMatch_iff :
    hashMatch hashKey hashCmp data b = true ↔ b.key = hashKey data ∧ hashCmp b.data data = true := by
  simp [hashMatch]

variable {h : Hash α}

theorem hashFind_some (hb : hashFind hashKey hashCmp h data = some b) :
    h.Holds b ∧ b.key = hashKey data ∧ hashCmp b.data data = true := by
  have hmatch := hashMatch_iff.1 (find?_some hb)
  exact ⟨Hash.holds_iff.2 ⟨_, mem_of_find?_eq_some hb⟩, hmatch⟩

theorem hashFind_none (hb : hashFind hashKey hashCmp h data = none)
    (hholds : h.Holds b) : ¬ (b.key = hashKey data ∧ hashCmp b.data data = true) := by
  intro hmatch
  have hmem : b ∈ h.index (hashSlot h.bits (hashKey data)) := by
    rw [← hmatch.1]
    exact hholds
  exact find?_eq_none.1 hb b hmem (hashMatch_iff.2 hmatch)

variable (heq : Equivalence fun a b => hashCmp a b = true) {allocFunc : α → Option α}
include heq

theorem hashExpand_distinct (hd : h.Distinct hashCmp) : (hashExpand h).Distinct hashCmp := by
  intro i
  show (h.rechained i).Pairwise _
  unfold Hash.rechained Hash.backets
  rw [pairwise_reverse]
  apply List.Pairwise.sublist filter_sublist
  rw [pairwise_flatMap]
  constructor
  · intro j _
    refine (hd j).imp fun {b c} hbc hcb => hbc ⟨hcb.1.symm, heq.symm hcb.2⟩
  · -- backets of different chains have different keys
    refine (nodup_range).imp fun {j k} hjk => ?_
    rintro b hb c hc ⟨hkey, -⟩
    exact hjk (by rw [← h.placed j b hb, ← h.placed k c hc, hkey])

theorem hashPush_distinct (hd : h.Distinct hashCmp)
    (hnew : ∀ c, h.Holds c → ¬ (c.key = b.key ∧ hashCmp c.data b.data = true)) : (hashPush h b).Distinct hashCmp := by
  refine (forall_update_iff h.index fun _ l => l.Pairwise _).2 ⟨.cons (fun c hc hbc => ?_) (hd _), fun i _ => hd i⟩
  exact hnew c (Hash.holds_iff.2 ⟨_, hc⟩) ⟨hbc.1.symm, heq.symm hbc.2⟩

omit heq in
theorem hashGet_of_find
    (hfind : hashFind hashKey hashCmp h data = some b) :
    hashGet hashKey hashCmp h data allocFunc = (some b.data, h) := by
  rw [hashGet, hfind]

theorem hashGet_enter {newdata : α} (hd : h.Distinct hashCmp)
    (hfind : hashFind hashKey hashCmp h data = none) (halloc : allocFunc data = some newdata)
    (hnew : hashCmp newdata data = true) :
    ∃ h', hashGet hashKey hashCmp h data allocFunc = (some newdata, h') ∧ h'.Distinct hashCmp ∧
      h'.count = h.count + 1 ∧ ∀ b, h'.Holds b ↔ b = ⟨hashKey data, newdata⟩ ∨ h.Holds b := by
  obtain ⟨h1, hdef, hholds, hdist, hcnt⟩ : ∃ h1, (if (h.index (hashSlot h.bits (hashKey data))).length > hashThreshold ∧
      h.noExpand = false then hashExpand h else h) = h1 ∧ (∀ b, h1.Holds b ↔ h.Holds b) ∧ h1.Distinct hashCmp ∧
      h1.count = h.count := by
    split
    · exact ⟨_, rfl, hashExpand_holds h, hashExpand_distinct heq hd, rfl⟩
    · exact ⟨_, rfl, fun _ => Iff.rfl, hd, rfl⟩
  refine ⟨hashPush h1 ⟨hashKey data, newdata⟩, ?_, ?_, congrArg (· + 1) hcnt, ?_⟩
  · rw [hashGet, hfind]
    rw [halloc]
    dsimp only
    rw [hdef]
  · refine hashPush_distinct heq hdist fun c hc hkey => hashFind_none hfind ((hholds c).1 hc) ?_
    exact ⟨hkey.1, heq.trans hkey.2 hnew⟩
  · intro b
    rw [hashPush_holds, hholds]

theorem hashRelease_holds (hd : h.Distinct hashCmp)
    (hfind : hashFind hashKey hashCmp h data = some b) (c : HashBacket α) :
    (hashRelease hashKey hashCmp h data).2.Holds c ↔
      h.Holds c ∧ ¬ (c.key = hashKey data ∧ hashCmp c.data data = true) := by
  simp only [hashRelease, hfind]
  show c ∈ update h.index _ _ (hashSlot h.bits c.key) ↔ _
  by_cases hi : hashSlot h.bits c.key = hashSlot h.bits (hashKey data)
  · unfold Hash.Holds
    rw [hi, update_self, ← hashMatch_iff, Bool.not_eq_true]
    refine mem_eraseP_iff (hd _) fun a b ha hb => ?_
    obtain ⟨hka, hca⟩ := hashMatch_iff.1 ha
    obtain ⟨hkb, hcb⟩ := hashMatch_iff.1 hb
    exact ⟨hka.trans hkb.symm, heq.trans hca (heq.symm hcb)⟩
  · rw [update_of_ne hi]
    refine ⟨fun hmem => ⟨hmem, fun hkey => hi (by rw [hkey.1])⟩, fun hmem => hmem.1⟩

omit heq in
theorem hashRelease_distinct (hd : h.Distinct hashCmp) (data : α) :
    (hashRelease hashKey hashCmp h data).2.Distinct hashCmp := by
  unfold hashRelease
  split
  · exact hd
  · exact (forall_update_iff h.index fun _ l => l.Pairwise _).2 ⟨(hd _).sublist eraseP_sublist, fun i _ => hd i⟩

end Distinct

/-! ## The table as a set -/

/-- A call of `hash_get` or `hash_release`. What is put in compares equal to what was asked for. -/
inductive HashOp (hashCmp : α → α → Bool) where
  | get (data : α) (allocFunc : α → Option α) (halloc : ∀ x, allocFunc data = some x → hashCmp x data = true)
  | release (data : α)

/-- `hash_lookup` has no `alloc_func`. -/
def hashLookup {hashCmp : α → α → Bool} (data : α) : HashOp hashCmp := .get data (fun _ => none) nofun

/-- `hash_create_size`. -/
def hashCreateSize (bits : Fin 32) : Hash α := ⟨bits, fun _ => [], false, 0, by simp⟩

section Run
variable (hashKey : α → UInt32) {hashCmp : α → α → Bool}

def HashOp.exec (h : Hash α) : HashOp hashCmp → Option α × Hash α
  | .get data allocFunc _ => hashGet hashKey hashCmp h data allocFunc
  | .release data => hashRelease hashKey hashCmp h data

/-- Something is put in a long chain, and the index may be expanded. -/
def HashOp.expands (h : Hash α) : HashOp hashCmp → Bool
  | .get data allocFunc _ => (hashFind hashKey hashCmp h data).isNone && (allocFunc data).isSome &&
    (h.index (hashSlot h.bits (hashKey data))).length > hashThreshold && !h.noExpand
  | .release _ => false

/-- The size of the index is an `unsigned int`: twice `2 ^ 31` is 0, and nothing is allocated for the chains. -/
def hashStep (h : Hash α) (op : HashOp hashCmp) : Option (Option α × Hash α) :=
  if h.bits = 31 ∧ op.expands hashKey h then none else some (op.exec hashKey h)

/-- The answer of a set whose elements are listed, and the set then. -/
def setStep (l : List α) : HashOp hashCmp → Option α × List α
  | .get data allocFunc _ =>
    (l.find? (hashCmp · data)).elim (allocFunc data, (allocFunc data).toList ++ l) fun x => (some x, l)
  | .release data => (l.find? (hashCmp · data), l.eraseP (hashCmp · data))

/-- The table stores the elements of the list, no two of which are equal. -/
structure Hash.Stores (hashCmp : α → α → Bool) (h : Hash α) (l : List α) : Prop where
  distinct : h.Distinct hashCmp
  apart : l.Pairwise fun x y => ¬ hashCmp x y = true
  holds : ∀ b, h.Holds b ↔ b.data ∈ l ∧ b.key = hashKey b.data
  count : h.count = l.length

/-- The table stores the set before and after every call, and gives its answers. -/
def Hash.Behaves : List (HashOp hashCmp) → Hash α → List α → Prop
  | [], h, l => h.Stores hashKey hashCmp l
  | op :: ops, h, l => h.Stores hashKey hashCmp l ∧
    ∃ h', hashStep hashKey h op = some ((setStep l op).1, h') ∧ Behaves ops h' (setStep l op).2

end Run

section Set
variable {hashKey : α → UInt32} {hashCmp : α → α → Bool} {h : Hash α} {l : List α}

theorem hashCreateSize_stores (bits : Fin 32) : (hashCreateSize bits).Stores hashKey hashCmp [] :=
  ⟨fun _ => .nil, .nil, fun b => by simp [hashCreateSize, Hash.Holds], rfl⟩

variable (heq : Equivalence fun a b => hashCmp a b = true) (hkey : ∀ x y, hashCmp x y = true → hashKey x = hashKey y)
include heq hkey

section
variable (hs : h.Stores hashKey hashCmp l)
include hs

theorem Hash.Stores.find (data : α) : (hashFind hashKey hashCmp h data).map (·.data) = l.find? (hashCmp · data) := by
  cases hfind : hashFind hashKey hashCmp h data with
  | none =>
    refine (find?_eq_none.2 fun x hx hdata => ?_).symm
    exact hashFind_none hfind ((hs.holds ⟨hashKey x, x⟩).2 ⟨hx, rfl⟩) ⟨hkey x data hdata, hdata⟩
  | some b =>
    obtain ⟨hholds, -, hdata⟩ := hashFind_some hfind
    have hb := ((hs.holds b).1 hholds).1
    obtain ⟨x, hx⟩ := isSome_iff_exists.1 ((find?_isSome (p := (hashCmp · data))).2 ⟨b.data, hb, hdata⟩)
    rw [hx]
    by_contra hne
    have : Std.Symm fun x y => ¬ hashCmp x y = true := ⟨fun _ _ h h' => h (heq.symm h')⟩
    refine hs.apart.forall hb (mem_of_find?_eq_some hx) (fun h => hne (congrArg some h)) ?_
    exact heq.trans hdata (heq.symm (find?_some (p := (hashCmp · data)) hx))

theorem Hash.Stores.exec (op : HashOp hashCmp) :
    (op.exec hashKey h).1 = (setStep l op).1 ∧ (op.exec hashKey h).2.Stores hashKey hashCmp (setStep l op).2 := by
  cases op with
  | get data allocFunc halloc =>
    have hfind := hs.find heq hkey data
    rw [HashOp.exec, setStep, ← hfind]
    cases hb : hashFind hashKey hashCmp h data with
    | some b =>
      rw [hashGet_of_find hb]
      exact ⟨rfl, hs⟩
    | none =>
      rw [hb, eq_comm, map_none, find?_eq_none] at hfind
      cases hx : allocFunc data with
      | none =>
        simp only [hashGet, hb, hx]
        exact ⟨rfl, hs⟩
      | some x =>
        have hnew := halloc x hx
        obtain ⟨h', hget, hdist, hcnt, hholds⟩ := hashGet_enter heq hs.distinct hb hx hnew
        rw [hget]
        refine ⟨rfl, hdist, ?_, fun b => ?_, ?_⟩
        · exact .cons (fun y hy hxy => hfind y hy (heq.trans (heq.symm hxy) hnew)) hs.apart
        · obtain ⟨key, y⟩ := b
          rw [hholds, hs.holds, ← hkey x data hnew]
          simp only [HashBacket.mk.injEq, map_none, elim_none, toList_some, mem_append, mem_singleton]
          constructor
          · rintro (⟨rfl, rfl⟩ | ⟨hy, hk⟩)
            · exact ⟨.inl rfl, rfl⟩
            · exact ⟨.inr hy, hk⟩
          · rintro ⟨rfl | hy, hk⟩
            · exact .inl ⟨hk, rfl⟩
            · exact .inr ⟨hy, hk⟩
        · rw [hcnt, hs.count]
          rfl
  | release data =>
    have hfind := hs.find heq hkey data
    rw [HashOp.exec, setStep, ← hfind]
    cases hb : hashFind hashKey hashCmp h data with
    | none =>
      rw [hb, eq_comm, map_none, find?_eq_none] at hfind
      rw [eraseP_of_forall_not hfind, hashRelease, hb]
      exact ⟨rfl, hs⟩
    | some b =>
      rw [hb, eq_comm] at hfind
      refine ⟨by rw [hashRelease, hb]; rfl, hashRelease_distinct hs.distinct data, hs.apart.sublist eraseP_sublist,
        fun c => ?_, ?_⟩
      · rw [hashRelease_holds heq hs.distinct hb, hs.holds,
          mem_eraseP_iff hs.apart fun x y hx hy => heq.trans hx (heq.symm hy),
          Bool.eq_false_iff]
        constructor
        · rintro ⟨⟨hc, hk⟩, hnot⟩
          exact ⟨⟨hc, fun hd => hnot ⟨hk.trans (hkey _ _ hd), hd⟩⟩, hk⟩
        · rintro ⟨⟨hc, hnot⟩, hk⟩
          exact ⟨⟨hc, hk⟩, fun hd => hnot hd.2⟩
      · rw [length_eraseP_of_mem (mem_of_find?_eq_some hfind) (find?_some hfind), ← hs.count, hashRelease, hb]

/-- The table is a set, exactly as long as an index of `2 ^ 31` chains is not expanded. -/
theorem Hash.Stores.behaves_iff (ops : List (HashOp hashCmp)) : h.Behaves hashKey ops l ↔
      Meets (fun h op => (op.exec hashKey h).2) (fun h op => ¬ (h.bits = 31 ∧ op.expands hashKey h)) ops h := by
  induction ops generalizing h l with
  | nil => exact iff_of_true hs trivial
  | cons op ops ih =>
    obtain ⟨hans, hstores⟩ := hs.exec heq hkey op
    rw [Hash.Behaves, Meets, ← ih hstores, hashStep, ← hans]
    by_cases hfull : h.bits = 31 ∧ op.expands hashKey h
    · simp [hfull]
    rw [if_neg hfull]
    constructor
    · rintro ⟨-, h', hstep, hrest⟩
      have hh' := congrArg Prod.snd (some.inj hstep)
      exact ⟨hfull, hh' ▸ hrest⟩
    · exact fun hrest => ⟨hs, _, rfl, hrest.2⟩

end

theorem hash_behaves_iff (bits : Fin 32) (ops : List (HashOp hashCmp)) :
    (hashCreateSize bits).Behaves hashKey ops [] ↔ Meets (fun h op => (op.exec hashKey h).2)
      (fun h op => ¬ (h.bits = 31 ∧ op.expands hashKey h)) ops (hashCreateSize bits) :=
  (hashCreateSize_stores bits).behaves_iff heq hkey ops

end Set

theorem natEq_equivalence : Equivalence fun a b : Nat => (a == b) = true := by simpa using eq_equivalence

def natGet (n : Nat) : HashOp fun a b : Nat => a == b := .get n some fun x h => by simp [← some.inj h]

/-- The one chain of a table becomes too long, and the table grows. -/
theorem hash_behaves_grown : (hashCreateSize 0).Behaves (fun n : Nat => n.toUInt32)
    ((range 12).map natGet ++ [hashLookup 3, .release 3, hashLookup 3, natGet 3]) [] :=
  (hash_behaves_iff natEq_equivalence (by simp) 0 _).2 (by decide +kernel)

/-- The twelfth number in one chain of `2 ^ 31`. -/
theorem hash_not_behaves : ¬ (hashCreateSize 31).Behaves (fun _ : Nat => 0) ((range 12).map natGet) [] := by
  rw [(hashCreateSize_stores 31).behaves_iff natEq_equivalence (by simp)]
  decide +kernel

/-! ## The hash function of lib/jhash.c, on octets and on single words -/

def jhashGoldenRatio : UInt32 := 0x9e3779b9

def jhashMix (a b c : UInt32) : UInt32 × UInt32 × UInt32 :=
  let a := (a - b - c) ^^^ (c >>> 13)
  let b := (b - c - a) ^^^ (a <<< 8)
  let c := (c - a - b) ^^^ (b >>> 13)
  let a := (a - b - c) ^^^ (c >>> 12)
  let b := (b - c - a) ^^^ (a <<< 16)
  let c := (c - a - b) ^^^ (b >>> 5)
  let a := (a - b - c) ^^^ (c >>> 3)
  let b := (b - c - a) ^^^ (a <<< 10)
  let c := (c - a - b) ^^^ (b >>> 15)
  (a, b, c)

/-- The word of the four octets at `i`, the first one lowest; octets that are not there are zero. -/
def jhashWord (k : List UInt8) (i : Nat) : UInt32 :=
  (k.getD i 0).toUInt32 + ((k.getD (i + 1) 0).toUInt32 <<< 8) + ((k.getD (i + 2) 0).toUInt32 <<< 16)
    + ((k.getD (i + 3) 0).toUInt32 <<< 24)

/-- The loop of `jhash` and what follows it, on the octets that are left. -/
def jhashLoop (length : Nat) (k : List UInt8) (a b c : UInt32) : UInt32 :=
  if 12 ≤ k.length then
    let (a, b, c) := jhashMix (a + jhashWord k 0) (b + jhashWord k 4) (c + jhashWord k 8)
    jhashLoop length (k.drop 12) a b c
  else
    -- the lowest octet of `c` is for the length
    let c := c + UInt32.ofNat length + ((k.getD 8 0).toUInt32 <<< 8) + ((k.getD 9 0).toUInt32 <<< 16)
      + ((k.getD 10 0).toUInt32 <<< 24)
    (jhashMix (a + jhashWord k 0) (b + jhashWord k 4) c).2.2
termination_by k.length
decreasing_by rw [List.length_drop]; omega

def jhash (key : List UInt8) (initval : UInt32) : UInt32 :=
  jhashLoop key.length key jhashGoldenRatio jhashGoldenRatio initval

def jhash3words (a b c initval : UInt32) : UInt32 :=
  (jhashMix (a + jhashGoldenRatio) (b + jhashGoldenRatio) (c + initval)).2.2

def jhash1word (a initval : UInt32) : UInt32 := jhash3words a 0 0 initval

end Tarpan.Lib
