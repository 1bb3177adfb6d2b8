/-
The choice of a route for a prefix in Babel (babeld/route.c): `find_best_route` with all of its arguments. The scan
starts from the head of the slot, which no filter is applied to.
-/
import Tarpan.Babeld.Route

namespace Tarpan.Babeld

open List

section
variable (t : Table) (feasible : Bool) (exclude : Option Nat) (a : Nat) (pfx : BitVec 128) (plen : UInt8)

/-- The filters of `find_best_route`. -/
def passesFilters : Bool := ¬routeExpired t a ∧ (¬feasible ∨ routeFeasible t a) ∧ exclude ≠ some (t.route a).neigh

/-- One turn of the loop. -/
def pickRoute (best r : Nat) : Nat :=
  if passesFilters t feasible exclude r ∧ routeMetric (t.route r) < routeMetric (t.route best) then r else best

/-- `find_best_route`, for feasible routes or all, and without those of a neighbour. -/
def findBestRouteFrom : Option Nat :=
  match slotRoutes t pfx plen with
  | [] => none
  | a :: rest => some (rest.foldl (pickRoute t feasible exclude) a)

/-- What is meant to be found: a route that passes the filters, and none that does has a smaller metric. -/
def IsBest (routes : List Nat) : Option Nat → Prop
  | none => ∀ r ∈ routes, ¬passesFilters t feasible exclude r
  | some a => a ∈ routes ∧ passesFilters t feasible exclude a ∧
    ∀ r ∈ routes, passesFilters t feasible exclude r → routeMetric (t.route a) ≤ routeMetric (t.route r)

theorem findBestRoute_eq : findBestRoute t pfx plen = findBestRouteFrom t true none pfx plen := by
  have hturn : betterRoute t = pickRoute t true none := by
    funext best r
    simp [betterRoute, pickRoute, passesFilters, and_assoc]
  rw [findBestRoute, hturn]
  rfl

variable {t feasible exclude a pfx plen}

/-- The scan ends with the route that it starts from, or with a smaller one that passes the filters. -/
theorem foldl_pickRoute_spec (rest : List Nat) (a : Nat) {b : Nat}
    (hb : rest.foldl (pickRoute t feasible exclude) a = b) :
    (b = a ∨ b ∈ rest ∧ passesFilters t feasible exclude b ∧ routeMetric (t.route b) < routeMetric (t.route a)) ∧
      ∀ r ∈ rest, passesFilters t feasible exclude r → routeMetric (t.route b) ≤ routeMetric (t.route r) := by
  induction rest generalizing a with
  | nil => exact ⟨.inl hb.symm, by simp⟩
  | cons c rest ih =>
    obtain ⟨hfrom, hleast⟩ := ih _ hb
    have hle : routeMetric (t.route b) ≤ routeMetric (t.route (pickRoute t feasible exclude a c)) := by
      rcases hfrom with heq | ⟨-, -, hlt⟩
      · rw [← heq]
      · exact hlt.le
    rw [pickRoute] at hfrom hle
    split_ifs at hfrom hle with hc
    · refine ⟨.inr ?_, forall_mem_cons.2 ⟨fun _ => hle, hleast⟩⟩
      rcases hfrom with rfl | ⟨hmem, hpass, -⟩
      · exact ⟨mem_cons_self, hc⟩
      · exact ⟨mem_cons_of_mem _ hmem, hpass, hle.trans_lt hc.2⟩
    · refine ⟨hfrom.imp_right fun h => ⟨mem_cons_of_mem _ h.1, h.2⟩, forall_mem_cons.2 ⟨fun hpass => ?_, hleast⟩⟩
      exact hle.trans (not_lt.1 fun hlt => hc ⟨hpass, hlt⟩)

end

/-- The best route is found unless the head of the slot fails a filter and no route that passes them has a smaller
metric. -/
theorem findBestRouteFrom_isBest_iff (t : Table) (feasible : Bool) (exclude : Option Nat) (pfx : BitVec 128)
    (plen : UInt8) :
    IsBest t feasible exclude (slotRoutes t pfx plen) (findBestRouteFrom t feasible exclude pfx plen) ↔
      ∀ a, (slotRoutes t pfx plen).head? = some a → passesFilters t feasible exclude a ∨
        ∃ r ∈ slotRoutes t pfx plen, passesFilters t feasible exclude r ∧
          routeMetric (t.route r) < routeMetric (t.route a) := by
  rw [findBestRouteFrom]
  cases slotRoutes t pfx plen with
  | nil => simp [IsBest]
  | cons a rest =>
    obtain ⟨hfrom, hleast⟩ := foldl_pickRoute_spec rest a rfl
    dsimp only [IsBest, head?_cons]
    constructor
    · rintro ⟨-, hpass, -⟩ _ ⟨⟩
      rcases hfrom with heq | ⟨hmem, -, hlt⟩
      · exact .inl (heq ▸ hpass)
      · exact .inr ⟨_, mem_cons_of_mem _ hmem, hpass, hlt⟩
    · intro h
      rcases hfrom with heq | ⟨hmem, hpass, hlt⟩
      · rw [heq] at hleast ⊢
        rcases h a rfl with hpass | ⟨r, hr, hpass, hlt⟩
        · exact ⟨mem_cons_self, hpass, forall_mem_cons.2 ⟨fun _ => le_rfl, hleast⟩⟩
        rcases mem_cons.1 hr with rfl | hr
        · exact absurd hlt (lt_irrefl _)
        · exact absurd hlt (not_lt.2 (hleast r hr hpass))
      · exact ⟨mem_cons_of_mem _ hmem, hpass, forall_mem_cons.2 ⟨fun _ => hlt.le, hleast⟩⟩

/-- One route with a hold time of 15 seconds, the shortest that `update_route` gives, after 16 seconds. -/
def expiredTable : Table where
  slots := [[1]]
  maxRouteSlots := 8
  route _ := ⟨0, 0, 0, 0, 0, 0, 0, 0, 15, false⟩
  heap := {1}
  source _ := ⟨0, 0, 0, 0, infinity, 1, 0⟩
  srcs := [0]
  brk := 2
  now := 16

/-- A route that has expired is returned, though no route passes the filters. -/
theorem findBestRouteFrom_expired : findBestRouteFrom expiredTable true none 0 0 = some 1 ∧
    passesFilters expiredTable true none 1 = false ∧
    ¬IsBest expiredTable true none (slotRoutes expiredTable 0 0) (findBestRouteFrom expiredTable true none 0 0) := by
  have hbest : findBestRouteFrom expiredTable true none 0 0 = some 1 := by decide
  refine ⟨hbest, by decide, fun h => ?_⟩
  rw [hbest] at h
  exact absurd h.2.1 (by decide)

end Tarpan.Babeld
