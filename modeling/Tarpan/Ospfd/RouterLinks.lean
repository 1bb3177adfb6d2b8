/-
The links of a router LSA (ospfd/ospf_packet.c, ospfd/ospf_spf.c). A link has 12 octets, and 4 more for each of its TOS
metrics. The search for the link back to a vertex steps by 12 octets, and all other walks by the size of the link.
-/
import Tarpan.Ospfd.Lsa

namespace Tarpan.Ospfd

open Base List

/-! ## The walks -/

section
variable (octets : List UInt8) (p : Nat)

/-- `link_id`, `type` and `tos_count` of the link at `p`. -/
def linkId : UInt32 := .ofNat (beVal ((octets.drop p).take 4))
def linkType : UInt8 := octets.getD (p + 8) 0
def tosCount : Nat := (octets.getD (p + 9) 0).toNat
def linkSize : Nat := 12 + 4 * tosCount octets p

/-- The link leads to the vertex of `v`: the type is point-to-point or virtual for a router, and transit for a
network. -/
def pointsTo (v : LsaHeader) : Bool :=
  ((linkType octets p = 1 ∨ linkType octets p = 4) ∧ v.type = 1 ∨ linkType octets p = 2 ∧ v.type = 2) ∧
    linkId octets p = v.id

/-- What `ospf_get_next_link` looks for: only the first type for a router. -/
def leadsTo (w : LsaHeader) : Bool := linkType octets p = (if w.type = 1 then 1 else 2) ∧ linkId octets p = w.id

end

/-- A router LSA: `links`, and the octets of the links. The length of the whole LSA has 16 bits. -/
structure RouterLsa where
  links : UInt16
  octets : List UInt8
  length_lt : octets.length + 24 < 65536

/-- The loop of `ospf_router_lsa_links_examin`, with the links that it counts. -/
def countLinks (octets : List UInt8) : Nat → Nat → Option Nat
  | turns + 1, p =>
    if p = octets.length then some 0
    else if linkSize octets p > octets.length - p then none
    else (countLinks octets turns (p + linkSize octets p)).map (· + 1)
  | 0, _ => none

def ospfRouterLsaLinksExamin (octets : List UInt8) (numLinks : Nat) : Bool :=
  countLinks octets (octets.length + 1) 0 = some numLinks

/-- The links that `ospf_get_next_link` and `ospf_spf_next` look at from `p` on. -/
def nextLinks (octets : List UInt8) : Nat → Nat → List Nat
  | turns + 1, p => if p < octets.length then p :: nextLinks octets turns (p + linkSize octets p) else []
  | 0, _ => []

/-- `ospf_get_next_link`, for a vertex that is a router or a network. -/
def ospfGetNextLink (v : RouterLsa) (w : LsaHeader) (prevLink : Option Nat) : Option Nat :=
  (nextLinks v.octets v.octets.length (prevLink.elim 0 fun p => p + linkSize v.octets p)).find? (leadsTo v.octets · w)

/-- The links that `ospf_lsa_has_link` looks at, until one leads to the vertex. -/
def hasLinkVisits : Nat → Nat → Nat → List Nat
  | left + 1, i, length => if length ≥ 36 then 12 * i :: hasLinkVisits left (i + 1) (length - 12) else []
  | 0, _, _ => []

def RouterLsa.visits (w : RouterLsa) : List Nat := hasLinkVisits w.links.toNat 0 (w.octets.length + 24)
def RouterLsa.nextLinks (w : RouterLsa) : List Nat := Ospfd.nextLinks w.octets w.octets.length 0
def ospfLsaHasLink (w : RouterLsa) (v : LsaHeader) : Int := (w.visits.findIdx? (pointsTo w.octets · v)).elim (-1) (↑)

/-! ## Their agreement -/

/-- The search finds a link back exactly where the other walks come to one. Both look at the declared links, which are
inside of the LSA; and `ospf_get_next_link` goes on from any link of the walk. -/
structure LinksAgree (w : RouterLsa) : Prop where
  hasLink : ∀ v, ospfLsaHasLink w v ≠ -1 ↔ ∃ p ∈ w.nextLinks, pointsTo w.octets p v
  visits : w.visits = w.nextLinks
  declared : w.nextLinks.length = w.links.toNat
  inside : ∀ p ∈ w.nextLinks, p + linkSize w.octets p ≤ w.octets.length
  next : ∀ v before rest, w.nextLinks = before ++ rest →
    ospfGetNextLink w v before.getLast? = rest.find? (leadsTo w.octets · v)

variable {octets : List UInt8}

theorem nextLinks_turns : ∀ {turns turns' p : Nat}, octets.length ≤ p + turns → octets.length ≤ p + turns' →
    nextLinks octets turns p = nextLinks octets turns' p
  | 0, 0, _, _, _ => rfl
  | 0, turns' + 1, p, h, _ => by rw [nextLinks, nextLinks, if_neg (by omega)]
  | turns + 1, 0, p, _, h' => by rw [nextLinks, nextLinks, if_neg (by omega)]
  | turns + 1, turns' + 1, p, h, h' => by
    have hpos : 12 ≤ linkSize octets p := Nat.le_add_right ..
    rw [nextLinks, nextLinks, @nextLinks_turns turns turns' (p + linkSize octets p) (by omega) (by omega)]

/-- The walk goes on behind its last link. -/
theorem nextLinks_rest : ∀ {before rest : List Nat} {turns p : Nat}, octets.length ≤ p + turns →
    nextLinks octets turns p = before ++ rest →
    nextLinks octets octets.length (before.getLast?.elim p fun q => q + linkSize octets q) = rest
  | [], rest, turns, p, h, hwalk => (nextLinks_turns (Nat.le_add_left ..) h).trans hwalk
  | b :: before, rest, 0, p, _, hwalk => by cases hwalk
  | b :: before, rest, turns + 1, p, h, hwalk => by
    have hpos : 12 ≤ linkSize octets p := Nat.le_add_right ..
    rw [nextLinks] at hwalk
    split_ifs at hwalk
    · obtain ⟨rfl, htail⟩ := cons.inj hwalk
      rw [← nextLinks_rest (by omega) htail, getLast?_cons]
      cases before.getLast? <;> rfl
    · cases hwalk

theorem nextLinks_of_count : ∀ {turns turns' p n : Nat}, countLinks octets turns p = some n →
    octets.length ≤ p + turns' → (nextLinks octets turns' p).length = n ∧ p + 12 * n ≤ octets.length ∧
      ∀ q ∈ nextLinks octets turns' p, q + linkSize octets q ≤ octets.length
  | turns + 1, turns', p, n, h, hturns => by
    rw [countLinks] at h
    split_ifs at h with hend hsize
    · cases h
      cases turns' <;> simp [nextLinks, hend]
    obtain ⟨m, hm, rfl⟩ := Option.map_eq_some_iff.1 h
    have hpos : 12 ≤ linkSize octets p := Nat.le_add_right ..
    obtain ⟨k, rfl⟩ := Nat.exists_eq_add_of_lt (show 0 < turns' by omega)
    obtain ⟨hlength, hle, hin⟩ := @nextLinks_of_count turns (0 + k) _ m hm (by omega)
    rw [nextLinks, if_pos (by omega)]
    refine ⟨by rw [length_cons, hlength], by omega, forall_mem_cons.2 ⟨by omega, hin⟩⟩

theorem hasLinkVisits_eq : ∀ {left i length : Nat}, 12 * left + 24 ≤ length →
    hasLinkVisits left i length = (range left).map fun j => 12 * (i + j)
  | 0, _, _, _ => rfl
  | left + 1, i, length, h => by
    rw [hasLinkVisits, if_pos (by omega), hasLinkVisits_eq (by omega), range_succ_eq_map, map_cons, map_map]
    congr 1
    exact map_congr_left fun j _ => by
      simp only [Function.comp, Nat.add_right_comm i 1, Nat.add_assoc, Nat.succ_eq_add_one]

/-- The links stand one after the other where only the last one has TOS metrics. -/
theorem nextLinks_eq_iff : ∀ {turns p : Nat},
    nextLinks octets turns p = (range (nextLinks octets turns p).length).map (p + 12 * ·) ↔
      ∀ q ∈ (nextLinks octets turns p).dropLast, tosCount octets q = 0
  | 0, p => by simp [nextLinks]
  | turns + 1, p => by
    rw [nextLinks]
    split_ifs with hlt
    · have ih := @nextLinks_eq_iff turns (p + linkSize octets p)
      have hhead : ∀ q ∈ (nextLinks octets turns (p + linkSize octets p)).head?, q = p + linkSize octets p := by
        cases turns with
        | zero => simp [nextLinks]
        | succ turns =>
          rw [nextLinks]
          split_ifs <;> simp
      generalize nextLinks octets turns (p + linkSize octets p) = l at *
      have hrng : (range (l.length + 1)).map (p + 12 * ·) = p :: (range l.length).map (p + 12 + 12 * ·) := by
        rw [range_succ_eq_map, map_cons, map_map]
        congr 1
        exact map_congr_left fun j _ => by simp only [Function.comp, Nat.succ_eq_add_one]; omega
      rw [length_cons, hrng, cons_inj_right]
      cases l with
      | nil => simp
      | cons q l =>
        obtain rfl := hhead q rfl
        rw [dropLast_cons_of_ne_nil (cons_ne_nil _ _), forall_mem_cons, ← ih]
        by_cases htos : tosCount octets p = 0
        · rw [show linkSize octets p = 12 by rw [linkSize, htos], and_iff_right htos]
        refine iff_of_false (fun h => ?_) fun h => htos h.1
        rw [length_cons, range_succ_eq_map, map_cons] at h
        have := (cons.inj h).1
        rw [linkSize] at this
        omega
    · simp

variable {w : RouterLsa}

theorem ospfLsaHasLink_ne_iff {v : LsaHeader} : ospfLsaHasLink w v ≠ -1 ↔ ∃ p ∈ w.visits, pointsTo w.octets p v := by
  rw [ospfLsaHasLink]
  cases h : w.visits.findIdx? (pointsTo w.octets · v) with
  | none => simpa using h
  | some i =>
    have : (findIdx? (pointsTo w.octets · v) w.visits).isSome := by rw [h]; rfl
    rw [findIdx?_isSome, any_eq_true] at this
    exact iff_of_true (by simp) this

theorem linksAgree_iff (hexamin : ospfRouterLsaLinksExamin w.octets w.links.toNat) :
    LinksAgree w ↔ ∀ p ∈ w.nextLinks.dropLast, tosCount w.octets p = 0 := by
  obtain ⟨hlength, hle, hin⟩ :=
    nextLinks_of_count (of_decide_eq_true hexamin) (show w.octets.length ≤ 0 + w.octets.length by omega)
  have hvis : w.visits = (range w.nextLinks.length).map (0 + 12 * ·) := by
    rw [RouterLsa.visits, hasLinkVisits_eq (by omega), RouterLsa.nextLinks, hlength]
    simp
  refine Iff.trans ⟨fun h => ?_, fun h => ?_⟩ nextLinks_eq_iff
  · exact h.visits.symm.trans hvis
  · have hsame : w.visits = w.nextLinks := hvis.trans h.symm
    refine ⟨fun v => hsame ▸ ospfLsaHasLink_ne_iff, hsame, hlength, hin, fun v before rest hwalk => ?_⟩
    rw [ospfGetNextLink, nextLinks_rest (by omega) hwalk]

/-- Two links: to a stub network, with one TOS metric or with none, and to the router with the ID 1. -/
def stubFirst (tos : List UInt8) (h : tos.length ≤ 4) : RouterLsa where
  links := 2
  octets := [0, 0, 0, 0, 0, 0, 0, 0, 3, .ofNat (tos.length / 4), 0, 1] ++ tos ++ [0, 0, 0, 1, 0, 0, 0, 0, 1, 0, 0, 1]
  length_lt := by simp; omega

theorem linksAgree_plain : LinksAgree (stubFirst [] (by decide)) := (linksAgree_iff (by decide)).2 (by decide)

theorem hasLink_not_tos : ∃ w v, ospfRouterLsaLinksExamin w.octets w.links.toNat ∧
    ospfLsaHasLink w v = -1 ∧ ∃ p ∈ w.nextLinks, pointsTo w.octets p v :=
  ⟨stubFirst [0, 0, 0, 1] (by decide), ⟨0, 0, 1, 1, 1, 0, 0, 36⟩, by decide⟩

end Tarpan.Ospfd
