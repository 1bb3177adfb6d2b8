/-
Doubly linked lists in memory: a family of heads, and nodes with pointers to the next one and to the one before. A list
of nodes is read off the pointers, forwards from the head and backwards by the other pointers. Putting a node at the
head of a list, and taking one out of the list it is in, change that list and no other one.
-/
import Mathlib.Data.List.Nodup

namespace Tarpan.Base

open List Function Option

/-- The heads of some lists, and the pointers of their nodes. -/
@[ext]
structure Lists (κ ν : Type) where
  head : κ → Option ν
  next : ν → Option ν
  prev : ν → Option ν

namespace Lists

variable {κ ν : Type} {L L' : Lists κ ν} {k k' : κ} {a b c : ν} {h p : Option ν} {l l1 l2 : List ν}

/-- The nodes that the pointers forwards lead to. -/
def Forward (L : Lists κ ν) : Option ν → List ν → Prop
  | h, [] => h = none
  | h, a :: l => h = some a ∧ L.Forward (L.next a) l

/-- The pointers backwards, of which the first is `p`. -/
def Back (L : Lists κ ν) : Option ν → List ν → Prop
  | _, [] => True
  | p, a :: l => L.prev a = p ∧ L.Back (some a) l

theorem Forward.congr : ∀ {l : List ν} {h : Option ν}, L.Forward h l → (∀ x ∈ l, L'.next x = L.next x) → L'.Forward h l
  | [], _, hl, _ => hl
  | a :: l, h, hl, hnext => by
    refine ⟨hl.1, ?_⟩
    rw [hnext a (mem_cons_self ..)]
    exact hl.2.congr fun x hx => hnext x (mem_cons_of_mem _ hx)

theorem Back.congr : ∀ {l : List ν} {p : Option ν}, L.Back p l → (∀ x ∈ l, L'.prev x = L.prev x) → L'.Back p l
  | [], _, _, _ => trivial
  | a :: _, _, hl, hprev =>
    ⟨(hprev a mem_cons_self).trans hl.1, hl.2.congr fun x hx => hprev x (mem_cons_of_mem _ hx)⟩

theorem Forward.head_eq (hl : L.Forward h l) : h = l.head? := by
  cases l with
  | nil => exact hl
  | cons a l => exact hl.1

theorem Forward.next_eq : ∀ {l1 : List ν} {h : Option ν}, L.Forward h (l1 ++ a :: l2) → L.next a = l2.head?
  | [], _, hl => hl.2.head_eq
  | _ :: _, _, hl => hl.2.next_eq

theorem Back.prev_eq : ∀ {l1 : List ν} {p : Option ν}, L.Back p (l1 ++ a :: l2) → L.prev a = (l1.getLast?).or p
  | [], p, hl => by
    exact hl.1
  | d :: l1, p, hl => by
    have hprev := Back.prev_eq hl.2
    rw [hprev]
    cases l1 with
    | nil => rfl
    | cons e l1 => rw [getLast?_cons_cons, getLast?_cons, some_or, some_or]

/-- A node is taken out: the one before it leads to the one behind it. -/
theorem Forward.remove [DecidableEq ν] : ∀ {l1 : List ν} {h : Option ν}, L.Forward h (l1 ++ a :: l2) →
    (l1 ++ a :: l2).Nodup → (∀ x ∈ l1 ++ l2, L'.next x = if l1.getLast? = some x then L.next a else L.next x) →
    L'.Forward (if l1 = [] then L.next a else h) (l1 ++ l2)
  | [], _, hl, _, hnext => hl.2.congr hnext
  | [d], _, hl, hnd, hnext => by
    have hd : d ∉ l2 := fun hd => (nodup_cons.1 hnd).1 (mem_cons_of_mem _ hd)
    refine ⟨hl.1, ?_⟩
    rw [hnext d mem_cons_self, getLast?_singleton, if_pos rfl]
    refine hl.2.2.congr fun x hx => (hnext x (mem_cons_of_mem _ hx)).trans (if_neg ?_)
    rintro ⟨⟩
    exact hd hx
  | d :: e :: l1, _, hl, hnd, hnext => by
    obtain ⟨hd, hnd⟩ := nodup_cons.1 hnd
    simp only [cons_append, getLast?_cons_cons] at hnext
    have hlast : (e :: l1).getLast? ≠ some d := fun hlast => hd (mem_append_left _ (mem_of_getLast? hlast))
    refine ⟨hl.1, ?_⟩
    rw [hnext d mem_cons_self, if_neg hlast]
    exact hl.2.remove hnd fun x hx => hnext x (mem_cons_of_mem _ hx)

theorem Back.remove [DecidableEq ν] : ∀ {l1 : List ν} {p : Option ν}, L.Back p (l1 ++ a :: l2) → (l1 ++ a :: l2).Nodup →
    (∀ x ∈ l1 ++ l2, L'.prev x = if l2.head? = some x then L.prev a else L.prev x) → L'.Back p (l1 ++ l2)
  | [], p, hl, hnd, hprev => by
    cases l2 with
    | nil => trivial
    | cons b l2 =>
      obtain ⟨hb, -⟩ := nodup_cons.1 (nodup_cons.1 hnd).2
      refine ⟨(hprev b mem_cons_self).trans ((if_pos rfl).trans hl.1), hl.2.2.congr fun x hx => ?_⟩
      rw [hprev x (mem_cons_of_mem _ hx), if_neg]
      rintro ⟨⟩
      exact hb hx
  | d :: l1, p, hl, hnd, hprev => by
    obtain ⟨hd, hnd⟩ := nodup_cons.1 hnd
    have hhead : l2.head? ≠ some d := fun hhead => hd (mem_append_right _ (mem_cons_of_mem _ (mem_of_mem_head? hhead)))
    exact ⟨(hprev d mem_cons_self).trans ((if_neg hhead).trans hl.1),
      hl.2.remove hnd fun x hx => hprev x (mem_cons_of_mem _ hx)⟩

/-- The pointers are those of the lists `l`, and no node is in two of them. -/
structure Holds (L : Lists κ ν) (l : κ → List ν) : Prop where
  forward : ∀ k, L.Forward (L.head k) (l k)
  back : ∀ k, L.Back none (l k)
  nodup : ∀ k, (l k).Nodup
  disjoint : ∀ {k k' a}, a ∈ l k → a ∈ l k' → k = k'

variable {l : κ → List ν}

theorem Holds.head_eq (h : L.Holds l) (k : κ) : L.head k = (l k).head? := (h.forward k).head_eq

theorem Holds.head_mem (h : L.Holds l) (hb : L.head k = some b) : b ∈ l k := by
  rw [h.head_eq] at hb
  exact mem_of_mem_head? hb

theorem Holds.next_mem (h : L.Holds l) (ha : a ∈ l k) (hb : L.next a = some b) : b ∈ l k ∧ b ≠ a := by
  obtain ⟨l1, l2, hl⟩ := append_of_mem ha
  have hnd := h.nodup k
  have hforward := h.forward k
  rw [hl] at hnd hforward ⊢
  rw [hforward.next_eq] at hb
  have hmem := mem_of_mem_head? hb
  exact ⟨mem_append_right _ (mem_cons_of_mem _ hmem), fun hba =>
    (nodup_cons.1 (nodup_append.1 hnd).2.1).1 (hba ▸ hmem)⟩

theorem Holds.prev_mem (h : L.Holds l) (ha : a ∈ l k) (hb : L.prev a = some b) : b ∈ l k := by
  obtain ⟨l1, l2, hl⟩ := append_of_mem ha
  have hback := h.back k
  rw [hl] at hback ⊢
  rw [hback.prev_eq, or_none] at hb
  exact mem_append_left _ (mem_of_getLast? hb)

/-- The lists only go by the links of their nodes. -/
theorem Holds.congr (h : L.Holds l) (hhead : L'.head = L.head)
    (hnext : ∀ {k a}, a ∈ l k → L'.next a = L.next a) (hprev : ∀ {k a}, a ∈ l k → L'.prev a = L.prev a) :
    L'.Holds l where
  forward k := hhead ▸ (h.forward k).congr fun _ => hnext
  back k := (h.back k).congr fun _ => hprev
  nodup := h.nodup
  disjoint := h.disjoint

/-! ## Changes -/

section Changes
variable [DecidableEq κ] [DecidableEq ν] {l : κ → List ν}

omit [DecidableEq ν] in
theorem mem_update_cons (hb : b ≠ a) : b ∈ update l k (a :: l k) k' ↔ b ∈ l k' := by
  rw [update_apply]
  split_ifs with hk
  · rw [mem_cons, or_iff_right hb, hk]
  · exact Iff.rfl

omit [DecidableEq ν] in
theorem mem_update_cons_self : a ∈ update l k (a :: l k) k := by
  rw [update_self]
  exact mem_cons_self ..

theorem mem_update_erase (hb : b ≠ a) : b ∈ update l k ((l k).erase a) k' ↔ b ∈ l k' := by
  rw [update_apply]
  split_ifs with hk
  · rw [mem_erase_of_ne hb, hk]
  · exact Iff.rfl

theorem Holds.not_mem_update_erase (h : L.Holds l) (ha : a ∈ l k) (k' : κ) : a ∉ update l k ((l k).erase a) k' := by
  rw [update_apply]
  split_ifs with hk
  · exact (h.nodup k).not_mem_erase
  · exact fun ha' => hk (h.disjoint ha' ha)

def push (L : Lists κ ν) (k : κ) (a : ν) : Lists κ ν where
  head := update L.head k (some a)
  next := update L.next a (L.head k)
  prev x := if L.head k = some x then some a else if x = a then none else L.prev x

def remove (L : Lists κ ν) (k : κ) (a : ν) : Lists κ ν where
  head x := if x = k ∧ L.prev a = none then L.next a else L.head x
  next x := if L.prev a = some x then L.next a else L.next x
  prev x := if L.next a = some x then L.prev a else L.prev x

def clear (L : Lists κ ν) (k : κ) : Lists κ ν := { L with head := update L.head k none }

omit [DecidableEq ν] in
/-- One list is replaced, and the others are left alone. -/
theorem Holds.replace {l' : List ν} (h : L.Holds l)
    (hothers : ∀ k', k' ≠ k → L'.head k' = L.head k' ∧ ∀ x ∈ l k', L'.next x = L.next x ∧ L'.prev x = L.prev x)
    (hforward : L'.Forward (L'.head k) l') (hback : L'.Back none l') (hnd : l'.Nodup)
    (hdisj : ∀ x ∈ l', ∀ k', x ∈ l k' → k' = k) : L'.Holds (update l k l') where
  forward k' := by
    by_cases hk : k' = k
    · rwa [hk, update_self]
    · rw [update_of_ne hk, (hothers k' hk).1]
      exact (h.forward k').congr fun x hx => ((hothers k' hk).2 x hx).1
  back k' := by
    by_cases hk : k' = k
    · rwa [hk, update_self]
    · rw [update_of_ne hk]
      exact (h.back k').congr fun x hx => ((hothers k' hk).2 x hx).2
  nodup k' := by
    by_cases hk : k' = k
    · rwa [hk, update_self]
    · rw [update_of_ne hk]
      exact h.nodup k'
  disjoint {k1 k2 x} hx1 hx2 := by
    rw [update_apply] at hx1 hx2
    split_ifs at hx1 hx2 with hk1 hk2 hk2
    · rw [hk1, hk2]
    · rw [hk1, hdisj x hx1 k2 hx2]
    · rw [hk2, hdisj x hx2 k1 hx1]
    · exact h.disjoint hx1 hx2

theorem Holds.push (h : L.Holds l) (hnew : ∀ k, a ∉ l k) : (L.push k a).Holds (update l k (a :: l k)) := by
  have hne : ∀ {k' x}, x ∈ l k' → x ≠ a := by
    rintro k' x hx rfl
    exact hnew k' hx
  have hprev : ∀ {x}, x ≠ a → L.head k ≠ some x → (L.push k a).prev x = L.prev x := fun hx hhead =>
    (if_neg hhead).trans (if_neg hx)
  have hnext : ∀ {k' x}, x ∈ l k' → (L.push k a).next x = L.next x := fun hx => update_of_ne (hne hx) ..
  have hhead : (L.push k a).head k = some a := update_self ..
  refine h.replace
    (fun k' hk => ⟨update_of_ne hk .., fun x hx => ⟨hnext hx, hprev (hne hx) fun hhead => ?_⟩⟩) ⟨hhead, ?_⟩
    ⟨?_, ?_⟩ (nodup_cons.2 ⟨hnew k, h.nodup k⟩) fun x hx k' hx' => ?_
  · exact hk (h.disjoint hx (h.head_mem hhead))
  · rw [show (L.push k a).next a = L.head k from update_self ..]
    exact (h.forward k).congr fun x => hnext
  · exact (if_neg fun hhead => hnew k (h.head_mem hhead)).trans (if_pos rfl)
  · have hback := h.back k
    have hnd := h.nodup k
    have hfirst := h.head_eq k
    cases hl : l k with
    | nil => trivial
    | cons b l0 =>
      rw [hl] at hback hnd hfirst
      refine ⟨if_pos hfirst, hback.2.congr fun x hx => hprev (hne (hl ▸ mem_cons_of_mem _ hx)) fun hx' => ?_⟩
      cases hfirst.symm.trans hx'
      exact (nodup_cons.1 hnd).1 hx
  · rcases mem_cons.1 hx with rfl | hx
    · exact absurd hx' (hnew k')
    · exact h.disjoint hx' hx

theorem Holds.remove (h : L.Holds l) (ha : a ∈ l k) : (L.remove k a).Holds (update l k ((l k).erase a)) := by
  obtain ⟨l1, l2, hl, hnot⟩ := eq_append_cons_of_mem ha
  have herase : (l k).erase a = l1 ++ l2 := by
    rw [hl, erase_append_right _ hnot, erase_cons_head]
  have hforward := h.forward k
  have hback := h.back k
  have hnd := h.nodup k
  rw [hl] at hforward hback hnd
  have hprev : L.prev a = l1.getLast? := hback.prev_eq.trans (or_none ..)
  refine h.replace (fun k' hk => ⟨if_neg fun hand => hk hand.1, fun x hx => ⟨if_neg fun hp => ?_, if_neg fun hn => ?_⟩⟩)
    ?_ ?_ ((h.nodup k).erase a) fun x hx k' hx' => h.disjoint hx' (mem_of_mem_erase hx)
  · exact hk (h.disjoint hx (h.prev_mem ha hp))
  · exact hk (h.disjoint hx (h.next_mem ha hn).1)
  · have hhead : (L.remove k a).head k = if l1 = [] then L.next a else L.head k := by
      simp [Lists.remove, hprev]
    rw [herase, hhead]
    exact hforward.remove hnd fun x _ => by rw [← hprev]; rfl
  · rw [herase]
    exact hback.remove hnd fun x _ => by rw [← hforward.next_eq]; rfl

omit [DecidableEq ν] in
theorem Holds.clear (h : L.Holds l) (k : κ) : (L.clear k).Holds (update l k []) :=
  h.replace (fun _ hk => ⟨update_of_ne hk .., fun _ _ => ⟨rfl, rfl⟩⟩) (update_self ..) trivial nodup_nil nofun

end Changes

end Lists

end Tarpan.Base
