/-
Dynamic capabilities (`bgp_capability_msg_parse` in bgp_packet.c). The loop does not go on behind a multiprotocol
capability that it ignores, and it copies four octets from behind every header, however long the capability is. It ends,
and stays in the message, exactly if neither is the case for a capability that it comes to.
-/
import Tarpan.Lib.Prefix

namespace Tarpan.Bgpd.Capability

open Base Lib List Function Bool

/-! ## The parser -/

inductive Call where
  | bgpNotifySend (code subCode : UInt8)
  | bgpAnnounceRoute (af : Afi × Safi)
  | bgpClearRoute (af : Afi × Safi)
  | bgpStop

/-- The part of `struct peer` that is used; `dynamicAdv` is `PEER_CAP_DYNAMIC_ADV`. -/
structure Peer where
  dynamicAdv : Bool := true
  established : Bool := true
  overrideCapability : Bool := false
  afc : Afi × Safi → Bool
  afcRecv : Afi × Safi → Bool := afc
  afcNego : Afi × Safi → Bool := afc
  calls : List Call := []

def Peer.call (peer : Peer) (c : Call) : Peer := { peer with calls := peer.calls ++ [c] }

def peerActiveNego (peer : Peer) : Bool :=
  [(.ip, .unicast), (.ip, .multicast), (.ip, .mplsVpn), (.ip6, .unicast), (.ip6, .multicast)].any peer.afcNego

/-- The labels of `SAFI_MPLS_LABELED_VPN` and `SAFI_MPLS_VPN` are one index. -/
def bgpAfiSafiValidIndices (afi : UInt16) (safi : UInt8) : Option (Afi × Safi) := do
  let afi ← [.ip, .ip6].find? fun a : Afi => a.code = afi
  let safi ← if safi = 128 ∨ safi = 4 then some .mplsVpn else if safi = 1 then some .unicast
    else if safi = 2 then some .multicast else none
  return (afi, safi)

/-- The indices in a `struct capability_mp_data`. -/
def mpIndices (mpc : List UInt8) : Option (Afi × Safi) :=
  bgpAfiSafiValidIndices (UInt16.ofNat (beVal (mpc.take 2))) (mpc.getD 3 0)

/-- A multiprotocol capability is set (`CAPABILITY_ACTION_SET`) or unset. -/
def setCapability (peer : Peer) (action : UInt8) (af : Afi × Safi) : Peer :=
  if action = 0 then
    let peer := { peer with afcRecv := update peer.afcRecv af true }
    if peer.afc af then { peer with afcNego := update peer.afcNego af true }.call (.bgpAnnounceRoute af) else peer
  else
    let peer := { peer with afcRecv := update peer.afcRecv af false, afcNego := update peer.afcNego af false }
    peer.call (if peerActiveNego peer then .bgpClearRoute af else .bgpStop)

/-- A capability with what follows its header in the message. -/
structure Cap where
  action : UInt8
  code : UInt8
  length : UInt8
  data : List UInt8

def Cap.next (c : Cap) : List UInt8 := c.data.drop c.length.toNat

/-- The checks of the header. -/
def header : List UInt8 → Option Cap
  | action :: code :: length :: data =>
    if (action ≠ 0 ∧ action ≠ 1) ∨ data.length < length.toNat then none else some ⟨action, code, length, data⟩
  | _ => none

/-- Where the parser is, and whether it has read octets of the message only. -/
structure Parser where
  peer : Peer
  pnt : List UInt8
  inside : Bool := true

/-- A turn of the loop behind the checks. Four octets are copied from behind the header, also some that stand in memory
`behind` the message, and both `continue` statements leave `pnt` where it is. -/
def turn (behind : List UInt8) (s : Parser) (c : Cap) : Parser :=
  let s := { s with inside := s.inside && decide (4 ≤ c.data.length) }
  if c.code ≠ 1 then { s with pnt := c.next }
  else if s.peer.overrideCapability then s
  else (mpIndices (c.data ++ behind)).elim s fun af =>
    { s with peer := setCapability s.peer c.action af, pnt := c.next }

/-- The loop, which may run for ever. -/
def bgpCapabilityMsgParse (behind : List UInt8) : Nat → Parser → Option (Int × Parser)
  | 0, _ => none
  | fuel + 1, s =>
    if s.pnt = [] then some (0, s)
    else (header s.pnt).elim (some (-1, { s with peer := s.peer.call (.bgpNotifySend 6 0) })) fun c =>
      bgpCapabilityMsgParse behind fuel (turn behind s c)

def bgpCapabilityReceive (behind : List UInt8) (fuel : Nat) (peer : Peer) (body : List UInt8) : Option (Int × Parser) :=
  if ¬peer.dynamicAdv then some (-1, { peer := peer.call (.bgpNotifySend 1 3), pnt := body })
  else if ¬peer.established then some (-1, { peer := peer.call (.bgpNotifySend 5 0), pnt := body })
  else bgpCapabilityMsgParse behind fuel { peer, pnt := body }

/-! ## The capabilities of a message -/

/-- The capabilities that a message has before the first header that is refused. -/
inductive Comes : List UInt8 → Cap → Prop
  | first {l c} : header l = some c → Comes l c
  | later {l c d} : header l = some c → Comes c.next d → Comes l d

/-- The parser goes on behind the capability, and four octets of the message follow the header. -/
structure Cap.Passed (overrideCapability : Bool) (c : Cap) : Prop where
  room : 4 ≤ c.data.length
  taken : c.code = 1 → overrideCapability = false ∧ (mpIndices c.data).isSome = true

variable {behind l : List UInt8} {s : Parser} {c : Cap}

theorem header_length (h : header l = some c) : c.data.length + 3 = l.length := by
  unfold header at h
  split at h
  · split at h
    · cases h
    · cases h
      rfl
  · cases h

theorem mpIndices_append (h : 4 ≤ l.length) : mpIndices (l ++ behind) = mpIndices l := by
  rw [mpIndices, mpIndices, take_append_of_le_length (by omega), getD, getD, getElem?_append_left (by omega)]

theorem setCapability_override (peer : Peer) (action : UInt8) (af : Afi × Safi) :
    (setCapability peer action af).overrideCapability = peer.overrideCapability := by
  dsimp only [setCapability]
  split
  · split <;> rfl
  · rfl

/-- What a turn of the loop does: it goes on behind the capability or stays where it is. -/
theorem turn_spec : (turn behind s c).peer.overrideCapability = s.peer.overrideCapability ∧
    (turn behind s c).inside = (s.inside && decide (4 ≤ c.data.length)) ∧ (turn behind s c).pnt =
      if c.code = 1 → s.peer.overrideCapability = false ∧ (mpIndices (c.data ++ behind)).isSome = true then c.next
      else s.pnt := by
  by_cases hcode : c.code = 1
  · rw [turn, if_neg (not_not.2 hcode), if_congr (forall_prop_of_true hcode) rfl rfl]
    by_cases hov : s.peer.overrideCapability = true
    · rw [if_pos hov, if_neg (by simp [hov])]
      exact ⟨rfl, rfl, rfl⟩
    rw [if_neg hov]
    cases mpIndices (c.data ++ behind) with
    | none => exact ⟨rfl, rfl, (if_neg (by simp)).symm⟩
    | some af => exact ⟨setCapability_override .., rfl, (if_pos ⟨eq_false_of_not_eq_true hov, rfl⟩).symm⟩
  · rw [turn, if_pos hcode, if_pos fun h => absurd h hcode]
    exact ⟨rfl, rfl, rfl⟩

/-! ## Termination -/

/-- The parser returns, and has read octets of the message only. -/
def Confined (run : Nat → Option (Int × Parser)) : Prop := ∃ fuel, Ends (run fuel) fun r => r.2.inside = true

theorem not_comes (h : header l = none) : ¬Comes l c := by
  intro hc
  cases hc with
  | first hfirst => simp [h] at hfirst
  | later hfirst _ => simp [h] at hfirst

/-- If the parser returns, it has gone on behind every capability. -/
theorem passed_of_ends : ∀ (fuel : Nat) {s : Parser} {r : Int × Parser}, bgpCapabilityMsgParse behind fuel s = some r →
    r.2.inside = true → s.inside = true ∧ ∀ c, Comes s.pnt c → c.Passed s.peer.overrideCapability
  | fuel + 1, s, r, h, hinside => by
    rw [bgpCapabilityMsgParse] at h
    cases hhdr : header s.pnt with
    | none =>
      refine ⟨?_, fun c hc => absurd hc (not_comes hhdr)⟩
      rw [hhdr] at h
      split at h
      · cases h
        exact hinside
      · cases h
        exact hinside
    | some c =>
      have hcons : s.pnt ≠ [] := by
        intro hnil
        rw [hnil] at hhdr
        cases hhdr
      rw [if_neg hcons, hhdr] at h
      obtain ⟨hin, hrest⟩ := passed_of_ends fuel h hinside
      obtain ⟨hov, hroom, hpnt⟩ := @turn_spec behind s c
      rw [hroom, and_eq_true, decide_eq_true_eq] at hin
      rw [hov, hpnt, mpIndices_append hin.2] at hrest
      refine ⟨hin.1, ?_⟩
      split_ifs at hrest with htaken
      · rintro d (hd | ⟨hd, hlater⟩)
        · obtain rfl := Option.some.inj (hhdr.symm.trans hd)
          exact ⟨hin.2, htaken⟩
        · obtain rfl := Option.some.inj (hhdr.symm.trans hd)
          exact hrest d hlater
      · exact hrest

theorem ends_of_passed : ∀ (fuel : Nat) {s : Parser}, s.pnt.length < fuel → s.inside = true →
    (∀ c, Comes s.pnt c → c.Passed s.peer.overrideCapability) →
    Ends (bgpCapabilityMsgParse behind fuel s) fun r => r.2.inside = true
  | fuel + 1, s, hlen, hinside, hall => by
    rw [bgpCapabilityMsgParse]
    split
    · exact .some hinside
    cases hhdr : header s.pnt with
    | none => exact .some hinside
    | some c =>
      have hlength := header_length hhdr
      obtain ⟨hroom, htaken⟩ := hall c (.first hhdr)
      obtain ⟨hov, hin, hpnt⟩ := @turn_spec behind s c
      rw [mpIndices_append hroom, if_pos htaken] at hpnt
      refine ends_of_passed fuel ?_ (by rw [hin, hinside, decide_eq_true hroom, Bool.and_self]) ?_
      · rw [hpnt, Cap.next, length_drop]
        omega
      · rw [hpnt, hov]
        exact fun d hd => hall d (.later hhdr hd)

theorem parse_confined_iff (behind body : List UInt8) (peer : Peer) :
    Confined (bgpCapabilityMsgParse behind · { peer, pnt := body }) ↔
      ∀ c, Comes body c → c.Passed peer.overrideCapability := by
  constructor
  · rintro ⟨fuel, r, hr, hin⟩
    exact (passed_of_ends fuel hr hin).2
  · exact fun hall => ⟨body.length + 1, ends_of_passed _ (Nat.lt_succ_self _) rfl hall⟩

/-- The parser returns and stays in the message exactly if it goes on behind every capability that it comes to and each
has four octets behind its header; of a CAPABILITY message, unless `bgp_capability_receive` refuses it. -/
theorem capability_confined (behind body : List UInt8) (peer : Peer) :
    (Confined (bgpCapabilityMsgParse behind · { peer, pnt := body }) ↔
      ∀ c, Comes body c → c.Passed peer.overrideCapability) ∧
    (Confined (bgpCapabilityReceive behind · peer body) ↔
      (peer.dynamicAdv = true → peer.established = true → ∀ c, Comes body c → c.Passed peer.overrideCapability)) := by
  refine ⟨parse_confined_iff behind body peer, ?_⟩
  by_cases hadv : peer.dynamicAdv = true
  · by_cases hstat : peer.established = true
    · simp only [bgpCapabilityReceive, hadv, hstat, forall_const]
      exact parse_confined_iff behind body peer
    · exact iff_of_true ⟨0, by simp [bgpCapabilityReceive, hadv, hstat, Ends]⟩ fun _ h => absurd h hstat
  · exact iff_of_true ⟨0, by simp [bgpCapabilityReceive, hadv, Ends]⟩ fun h => absurd h hadv

/-- A multiprotocol capability of an unknown address family, and a capability of length 0 at the end of the message. -/
theorem capability_endless : (¬Confined (bgpCapabilityReceive [] · { afc := fun _ => true } [0, 1, 4, 0, 3, 0, 1])) ∧
    ¬Confined (bgpCapabilityReceive [0, 0, 0, 0] · { afc := fun _ => true } [0, 2, 0]) := by
  constructor
  · rintro ⟨fuel, r, hr, hin⟩
    have hpassed := (passed_of_ends fuel hr hin).2 ⟨0, 1, 4, [0, 3, 0, 1]⟩ (.first rfl)
    exact absurd (hpassed.taken rfl).2 (by decide)
  · rintro ⟨fuel, r, hr, hin⟩
    exact absurd ((passed_of_ends fuel hr hin).2 ⟨0, 2, 0, []⟩ (.first rfl)).room (by decide)

end Tarpan.Bgpd.Capability
