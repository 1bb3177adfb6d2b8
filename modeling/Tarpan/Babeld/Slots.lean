/-
The slots of the Babel route table: in the order of the prefixes, with the routes of one prefix each, so that the binary
search finds the slot of a prefix or the place for it.
-/
import Tarpan.Babeld.Route

namespace Tarpan.Babeld

open Base List

variable {t t' : Table} {pfx : BitVec 128} {plen : UInt8} {a b c i n k : Nat} {κ κ' : Nat → Nat}
  {l l1 l2 : List (List Nat)} {s : List Nat}

/-- A prefix as a number: larger prefixes, and for the same octets longer ones, have larger numbers. -/
def prefixKey (pfx : BitVec 128) (plen : UInt8) : Nat := pfx.toNat * 256 + plen.toNat

theorem prefixKey_inj {pfx' : BitVec 128} {plen' : UInt8} :
    prefixKey pfx plen = prefixKey pfx' plen' ↔ pfx = pfx' ∧ plen = plen' := by
  have h := plen.toNat_lt
  have h' := plen'.toNat_lt
  rw [BitVec.toNat_eq, ← UInt8.toNat_inj, prefixKey, prefixKey]
  omega

/-- The source of a route. -/
abbrev Table.src (t : Table) (a : Nat) : Source := t.source (t.route a).src

def Table.key (t : Table) (a : Nat) : Nat := prefixKey (t.source (t.route a).src).pfx (t.source (t.route a).src).plen

theorem routeCompare_sign (t : Table) (pfx : BitVec 128) (plen : UInt8) (a : Nat) :
    (routeCompare t pfx plen a < 0 ↔ prefixKey pfx plen < t.key a) ∧
    (0 < routeCompare t pfx plen a ↔ t.key a < prefixKey pfx plen) := by
  rw [routeCompare, Table.key]
  generalize t.source (t.route a).src = src
  have h := plen.toNat_lt
  have h' := src.plen.toNat_lt
  simp only [prefixKey, BitVec.lt_def, UInt8.lt_iff_toNat_lt]
  by_cases h1 : pfx.toNat < src.pfx.toNat
  · omega
  by_cases h2 : src.pfx.toNat < pfx.toNat
  · omega
  by_cases h3 : plen.toNat < src.plen.toNat
  · omega
  by_cases h4 : src.plen.toNat < plen.toNat <;> omega

/-- Slots in order, with routes of one prefix each. -/
structure SlotsOk (κ : Nat → Nat) (slots : List (List Nat)) : Prop where
  nonempty : ∀ s ∈ slots, s ≠ []
  same : ∀ s ∈ slots, ∀ a ∈ s, ∀ b ∈ s, κ a = κ b
  sorted : slots.Pairwise fun s s' => ∀ a ∈ s, ∀ b ∈ s', κ a < κ b

theorem slotsOk_append : SlotsOk κ (l1 ++ l2) ↔
    SlotsOk κ l1 ∧ SlotsOk κ l2 ∧ ∀ a ∈ l1.flatten, ∀ b ∈ l2.flatten, κ a < κ b := by
  constructor
  · intro h
    obtain ⟨h1, h2, h3⟩ := pairwise_append.1 h.sorted
    refine ⟨⟨fun s hs => h.nonempty s (mem_append_left _ hs), fun s hs => h.same s (mem_append_left _ hs), h1⟩,
      ⟨fun s hs => h.nonempty s (mem_append_right _ hs), fun s hs => h.same s (mem_append_right _ hs), h2⟩, ?_⟩
    intro a ha b hb
    obtain ⟨s, hs, ha⟩ := mem_flatten.1 ha
    obtain ⟨s', hs', hb⟩ := mem_flatten.1 hb
    exact h3 s hs s' hs' a ha b hb
  · rintro ⟨h1, h2, h3⟩
    refine ⟨fun s hs => ?_, fun s hs => ?_, pairwise_append.2 ⟨h1.sorted, h2.sorted, ?_⟩⟩
    · exact (mem_append.1 hs).elim (h1.nonempty s) (h2.nonempty s)
    · exact (mem_append.1 hs).elim (h1.same s) (h2.same s)
    · exact fun s hs s' hs' a ha b hb => h3 a (mem_flatten.2 ⟨s, hs, ha⟩) b (mem_flatten.2 ⟨s', hs', hb⟩)

theorem slotsOk_singleton : SlotsOk κ [s] ↔ s ≠ [] ∧ ∀ a ∈ s, ∀ b ∈ s, κ a = κ b := by
  constructor
  · exact fun h => ⟨h.nonempty s (by simp), h.same s (by simp)⟩
  · rintro ⟨hne, hsame⟩
    refine ⟨?_, ?_, pairwise_singleton ..⟩
    · simpa using hne
    · simpa using hsame

theorem SlotsOk.congr (h : SlotsOk κ l) (hkey : ∀ a ∈ l.flatten, κ' a = κ a) : SlotsOk κ' l := by
  have hkey' : ∀ s ∈ l, ∀ a ∈ s, κ' a = κ a := fun s hs a ha => hkey a (mem_flatten.2 ⟨s, hs, ha⟩)
  refine ⟨h.nonempty, fun s hs a ha b hb => ?_, h.sorted.imp_of_mem fun hs hs' hlt a ha b hb => ?_⟩
  · rw [hkey' s hs a ha, hkey' s hs b hb]
    exact h.same s hs a ha b hb
  · rw [hkey' _ hs a ha, hkey' _ hs' b hb]
    exact hlt a ha b hb

theorem slotsOk_middle : SlotsOk κ (l1 ++ s :: l2) ↔ SlotsOk κ (l1 ++ l2) ∧ s ≠ [] ∧ (∀ a ∈ s, ∀ b ∈ s, κ a = κ b) ∧
    (∀ a ∈ l1.flatten, ∀ b ∈ s, κ a < κ b) ∧ ∀ a ∈ s, ∀ b ∈ l2.flatten, κ a < κ b := by
  rw [← singleton_append, slotsOk_append, slotsOk_append, slotsOk_append, slotsOk_singleton]
  simp only [flatten_append, mem_append, flatten_cons, flatten_nil, append_nil]
  constructor
  · rintro ⟨h1, ⟨⟨hne, hsame⟩, h2, hafter⟩, hbef⟩
    exact ⟨⟨h1, h2, fun a ha b hb => hbef a ha b (.inr hb)⟩, hne, hsame, fun a ha b hb => hbef a ha b (.inl hb), hafter⟩
  · rintro ⟨⟨h1, h2, hbef⟩, hne, hsame, hbelow, hafter⟩
    refine ⟨h1, ⟨⟨hne, hsame⟩, h2, hafter⟩, fun a ha b hb => ?_⟩
    exact hb.elim (hbelow a ha b) (hbef a ha b)

theorem SlotsOk.replaceSlot {s' : List Nat} (h : SlotsOk κ (l1 ++ s :: l2)) (hkey : ∀ a ∈ s, κ a = k)
    (hs' : ∀ a ∈ s', κ a = k) (hne : s' ≠ []) : SlotsOk κ (l1 ++ s' :: l2) := by
  obtain ⟨hrest, hne', -, hbelow, habove⟩ := slotsOk_middle.1 h
  obtain ⟨d, hd⟩ := exists_mem_of_ne_nil s hne'
  refine slotsOk_middle.2 ⟨hrest, hne, fun a ha b hb => (hs' a ha).trans (hs' b hb).symm, fun a ha b hb => ?_,
    fun a ha b hb => ?_⟩
  · rw [hs' b hb, ← hkey d hd]
    exact hbelow a ha d hd
  · rw [hs' a ha, ← hkey d hd]
    exact habove d hd b hb

theorem SlotsOk.around (h : SlotsOk κ (l1 ++ s :: l2)) (hkey : ∀ a ∈ s, κ a = k) :
    (∀ a ∈ l1.flatten, κ a < k) ∧ (∀ a ∈ s, κ a = k) ∧ ∀ a ∈ l2.flatten, k < κ a := by
  obtain ⟨-, hne, -, hbelow, habove⟩ := slotsOk_middle.1 h
  obtain ⟨b, hb⟩ := exists_mem_of_ne_nil s hne
  refine ⟨fun a ha => ?_, hkey, fun a ha => ?_⟩
  · rw [← hkey b hb]
    exact hbelow a ha b hb
  · rw [← hkey b hb]
    exact habove b hb a ha

theorem slotCompare_ascending (h : SlotsOk t.key t.slots) (pfx : BitVec 128) (plen : UInt8) :
    Ascending (slotCompare t pfx plen) t.slots.length := by
  intro i j hij hj hge
  have hi : i < t.slots.length := hij.trans hj
  obtain ⟨a, ha⟩ := exists_mem_of_ne_nil _ (h.nonempty _ (getElem_mem hi))
  have hlt := pairwise_iff_getElem.1 h.sorted i j hi hj hij
  obtain ⟨x, xs, hx⟩ := exists_cons_of_ne_nil (h.nonempty _ (getElem_mem hi))
  obtain ⟨y, ys, hy⟩ := exists_cons_of_ne_nil (h.nonempty _ (getElem_mem hj))
  rw [hx, hy] at hlt
  have hxy := hlt x (by simp) y (by simp)
  simp only [slotCompare, getElem?_eq_getElem hi, getElem?_eq_getElem hj, hx, hy] at hge ⊢
  have hy' : ¬prefixKey pfx plen < t.key y := fun hlt => absurd hge (not_le.2 ((routeCompare_sign ..).1.2 hlt))
  exact (routeCompare_sign ..).2.2 (hxy.trans_le (not_lt.1 hy'))

/-- The slots, split at a prefix: its slot or its place. -/
def Splits (t : Table) (k : Nat) : SearchResult → Prop
  | .found i => ∃ l1 s l2, t.slots = l1 ++ s :: l2 ∧ l1.length = i ∧ (∀ a ∈ l1.flatten, t.key a < k) ∧
      (∀ a ∈ s, t.key a = k) ∧ ∀ a ∈ l2.flatten, k < t.key a
  | .missing n => ∃ l1 l2, t.slots = l1 ++ l2 ∧ l1.length = n ∧ (∀ a ∈ l1.flatten, t.key a < k) ∧
      ∀ a ∈ l2.flatten, k < t.key a

theorem slotCompare_getElem (h : SlotsOk t.key t.slots) (hi : i < t.slots.length) :
    (slotCompare t pfx plen i < 0 → ∀ a ∈ t.slots[i], prefixKey pfx plen < t.key a) ∧
    (0 < slotCompare t pfx plen i → ∀ a ∈ t.slots[i], t.key a < prefixKey pfx plen) ∧
    (slotCompare t pfx plen i = 0 → ∀ a ∈ t.slots[i], t.key a = prefixKey pfx plen) := by
  obtain ⟨x, xs, hx⟩ := exists_cons_of_ne_nil (h.nonempty _ (getElem_mem hi))
  have hsame : ∀ a ∈ t.slots[i], t.key a = t.key x :=
    fun a ha => h.same _ (getElem_mem hi) a ha x (hx ▸ mem_cons_self)
  have hcmp : slotCompare t pfx plen i = routeCompare t pfx plen x := by
    simp [slotCompare, getElem?_eq_getElem hi, hx]
  obtain ⟨hneg, hpos⟩ := routeCompare_sign t pfx plen x
  rw [hcmp]
  refine ⟨fun hlt a ha => ?_, fun hlt a ha => ?_, fun hzero a ha => ?_⟩
  · rw [hsame a ha]
    exact hneg.1 hlt
  · rw [hsame a ha]
    exact hpos.1 hlt
  · rw [hsame a ha]
    omega

theorem findRouteSlot_splits (h : SlotsOk t.key t.slots) (pfx : BitVec 128) (plen : UInt8) :
    Splits t (prefixKey pfx plen) (findRouteSlot t pfx plen) := by
  rw [findRouteSlot]
  split_ifs with hemp
  · have hnil : t.slots = [] := length_eq_zero_iff.1 (by omega)
    exact ⟨[], [], by rw [hnil]; rfl, rfl, by simp, by simp⟩
  have hright := binarySearch_right (p := 0) (g := t.slots.length - 1) (slotCompare_ascending h pfx plen)
    le_rfl (by omega) (by omega) (by omega) (by omega) (show _ < (t.slots.length : Int) by omega)
  cases hres : binarySearch (slotCompare t pfx plen) t.slots.length 0 (t.slots.length - 1) with
  | found i =>
    rw [hres] at hright
    obtain ⟨hi, hzero⟩ := hright
    have hsl : t.slots = t.slots.take i ++ t.slots[i] :: t.slots.drop (i + 1) := by
      rw [getElem_cons_drop, take_append_drop]
    have hkey := (slotCompare_getElem h hi).2.2 hzero
    exact ⟨_, _, _, hsl, by simp; omega, (hsl ▸ h).around hkey⟩
  | missing n =>
    rw [hres] at hright
    obtain ⟨hn, hbelow, habove⟩ := hright
    refine ⟨t.slots.take n, t.slots.drop n, (take_append_drop ..).symm, by simp; omega, fun a ha => ?_, fun a ha => ?_⟩
    · obtain ⟨s, hs, ha⟩ := mem_flatten.1 ha
      obtain ⟨j, hj, rfl⟩ := mem_take_iff_getElem.1 hs
      exact (slotCompare_getElem h (by omega)).2.1 (hbelow j (by omega)) a ha
    · obtain ⟨s, hs, ha⟩ := mem_flatten.1 ha
      obtain ⟨j, hj, rfl⟩ := mem_drop_iff_getElem.1 hs
      exact (slotCompare_getElem h (by omega)).1 (habove (n + j) (by omega) (by omega)) a (by simpa using ha)

end Tarpan.Babeld
