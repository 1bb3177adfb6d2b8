/-
The cost portal of Wiser (wiser_costs.hpp, tarpan_backpropagation.proto): an AS that hears a route
over a gulf opens a connection to the portal of the sender and writes one message with its own AS and
the cost. The portal reads messages from a connection, each after its length.
-/
import Tarpan.Bgpd.Wiser.Handler

namespace Tarpan.Bgpd

open Base List Option

/-! ## Messages -/

/-- The message `WiserBack`. Fields that the portal does not know are not read. -/
structure WiserBack where
  as : UInt32
  cost : UInt32

/-- The message `TarpanBackpropagation`. -/
structure TarpanBackpropagation where
  ping : Option Int32 := none
  close : Option Bool := none
  wiserBack : Option WiserBack := none

/-- `tarpan_backpropagation__unpack`, which is generated from the protocol's description. No field is required, so
no octets are a message too. -/
structure BackCodec where
  unpack : List UInt8 → Option TarpanBackpropagation
  unpack_nil : unpack [] = some {}

/-- Nothing but the empty message is read. -/
def BackCodec.emptyOnly : BackCodec := ⟨fun octets => if octets = [] then some {} else none, rfl⟩

/-! ## A connection -/

/-- A `uint32_t` in the order of the hosts, which are little-endian. -/
def hostVal (octets : List UInt8) : Nat := beVal octets.reverse

/-- `recv` with `MSG_WAITALL`: what it returns, the octets that it gets, and those that are left. Where none are left,
it fails or returns 0, as `after` says for this call and those that follow. -/
def recvWaitall (n : Nat) (octets : List UInt8) (after : Nat → Bool) : Int × List UInt8 × List UInt8 × (Nat → Bool) :=
  if octets = [] then (if after 0 then -1 else 0, [], [], fun k => after (k + 1))
  else ((octets.take n).length, octets.take n, octets.drop n, after)

/-- What a message does to the ledger. -/
def updateCosts (st : WiserState) (msg : TarpanBackpropagation) : WiserState :=
  msg.wiserBack.elim st fun back => updateSentCost st back.as back.cost

variable (codec : BackCodec)

/-- `cost_portal_handle_connection` with the calls of `recv`. The result is `none` where the turns do not suffice, and
`some none` where a message that cannot be unpacked ends the process. -/
def costPortalHandleConnection : Nat → (Nat → Bool) → WiserState → List UInt8 → Option (Option WiserState)
  | 0, _, _, _ => none
  | turns + 1, after, st, octets =>
    let (bytesRead, header, octets, after) := recvWaitall 4 octets after
    if bytesRead = 0 then some (some st)
    else
      let messageSize := hostVal header
      if messageSize > 4000000 then some (some st)
      else
        let (bytesRead, buf, octets, after) := recvWaitall messageSize octets after
        if bytesRead ≠ messageSize then some (some st)
        else
          match codec.unpack buf with
          | none => some none
          | some msg =>
            if msg.close = some true then some (some (updateCosts st msg))
            else costPortalHandleConnection turns after (updateCosts st msg) octets

/-- The complete message in front, and what follows it. -/
def portalBody (octets : List UInt8) : Option (List UInt8 × List UInt8) :=
  let messageSize := hostVal (octets.take 4)
  if 4 ≤ octets.length ∧ messageSize ≤ (octets.drop 4).length then
    some ((octets.drop 4).take messageSize, (octets.drop 4).drop messageSize)
  else none

/-- The complete messages in front that can be unpacked. -/
def portalMessages : Nat → List UInt8 → List TarpanBackpropagation
  | 0, _ => []
  | n + 1, octets =>
    match portalBody octets with
    | none => []
    | some (body, rest) =>
      match codec.unpack body with
      | none => []
      | some msg => msg :: portalMessages n rest

/-- Every call for a header fails, and every call for the empty body after it does not. -/
def Stuck (after : Nat → Bool) : Prop := ∀ k, after (2 * k) = true ∧ after (2 * k + 1) = false

/-- The messages that are read can be unpacked, no message that changes the ledger comes after one that asks to close or
is one that is too long, and the calls without octets do not go on for good. -/
def PortalServes : Nat → (Nat → Bool) → WiserState → List UInt8 → Prop
  | 0, after, _, _ => ¬ Stuck after
  | n + 1, after, st, octets =>
    if octets = [] then ¬ Stuck after
    else if octets.length ≤ 4 ∧ hostVal octets = 0 then after 0 = true ∨ ¬ Stuck fun k => after (k + 1)
    else
      match portalBody octets with
      | none => True
      | some (body, rest) =>
        match codec.unpack body with
        | none => body.length > 4000000
        | some msg =>
          if body.length > 4000000 then (msg :: portalMessages codec n rest).foldl updateCosts st = st
          else if msg.close = some true then
            (portalMessages codec n rest).foldl updateCosts (updateCosts st msg) = updateCosts st msg
          else PortalServes n after (updateCosts st msg) rest

section Connection
variable {codec : BackCodec} {after : Nat → Bool} {st st' : WiserState} {octets : List UInt8} {turns : Nat}

/-- The loop returns normally with the ledger `st'`. -/
def Closes (codec : BackCodec) (after : Nat → Bool) (st : WiserState) (octets : List UInt8) (st' : WiserState) : Prop :=
  ∃ turns, costPortalHandleConnection codec turns after st octets = some (some st')

theorem closes_succ {r : Nat → Option (Option WiserState)}
    (h : ∀ turns, costPortalHandleConnection codec (turns + 1) after st octets = r turns) :
    Closes codec after st octets st' ↔ ∃ turns, r turns = some (some st') := by
  constructor
  · rintro ⟨turns, hrun⟩
    cases turns with
    | zero => cases hrun
    | succ turns => exact ⟨turns, (h turns).symm.trans hrun⟩
  · rintro ⟨turns, hrun⟩
    exact ⟨turns + 1, (h turns).trans hrun⟩

theorem closes_of_closed (h : ∀ turns, costPortalHandleConnection codec (turns + 1) after st octets = some (some st)) :
    Closes codec after st octets st' ↔ st' = st := by
  rw [closes_succ h]
  simp [eq_comm]

theorem costPortalHandleConnection_nil (turns : Nat) : costPortalHandleConnection codec (turns + 1) after st [] =
    if after 0 = true ∧ after 1 = false then costPortalHandleConnection codec turns (fun k => after (k + 2)) st []
    else some (some st) := by
  cases h0 : after 0 <;> cases h1 : after 1 <;>
    simp [costPortalHandleConnection, recvWaitall, h0, h1, codec.unpack_nil, hostVal, beVal, updateCosts]

/-- The octets of a size of 0 are the last ones. -/
theorem costPortalHandleConnection_zero (turns : Nat) (hne : octets ≠ []) (hlen : octets.length ≤ 4)
    (hzero : hostVal octets = 0) :
    costPortalHandleConnection codec (turns + 1) after st octets =
      if after 0 = true then some (some st)
      else costPortalHandleConnection codec turns (fun k => after (k + 1)) st [] := by
  cases h0 : after 0 <;>
    simp [costPortalHandleConnection, recvWaitall, h0, hne, take_of_length_le hlen, drop_eq_nil_of_le hlen, hzero,
      codec.unpack_nil, updateCosts]

theorem take_four_ne (hne : octets ≠ []) : ((octets.take 4).length : Int) ≠ 0 := by
  have := length_pos_iff.2 hne
  rw [length_take]
  omega

/-- A header or a body is not complete. -/
theorem costPortalHandleConnection_short (turns : Nat) (hne : octets ≠ [])
    (hzero : ¬ (octets.length ≤ 4 ∧ hostVal octets = 0)) (hbody : portalBody octets = none) :
    costPortalHandleConnection codec (turns + 1) after st octets = some (some st) := by
  have hshort : ¬ (4 ≤ octets.length ∧ hostVal (octets.take 4) ≤ (octets.drop 4).length) := by
    intro h
    rw [portalBody, if_pos h] at hbody
    cases hbody
  have hread : (recvWaitall (hostVal (octets.take 4)) (octets.drop 4) after).1 ≠ hostVal (octets.take 4) := by
    by_cases hrest : octets.drop 4 = []
    · have hlen : octets.length ≤ 4 := by simpa using hrest
      rw [take_of_length_le hlen]
      rw [recvWaitall]
      split <;> omega
    · have hlen : 4 ≤ octets.length := by
        by_contra h
        exact hrest (drop_eq_nil_of_le (by omega))
      rw [recvWaitall, if_neg hrest]
      simp only [length_take]
      omega
  have hhead := take_four_ne hne
  rw [costPortalHandleConnection, recvWaitall, if_neg hne]
  dsimp only
  rw [if_neg hhead, if_pos hread, ite_self]

theorem portalBody_eq {body rest : List UInt8} (h : portalBody octets = some (body, rest)) :
    (4 ≤ octets.length ∧ hostVal (octets.take 4) = body.length) ∧ octets.drop 4 = body ++ rest := by
  unfold portalBody at h
  dsimp only at h
  split at h
  · rename_i hlen
    cases h
    refine ⟨⟨hlen.1, ?_⟩, (take_append_drop ..).symm⟩
    rw [length_take, Nat.min_eq_left hlen.2]
  · cases h

/-- A complete message, unless it is the empty one at the end. -/
theorem costPortalHandleConnection_frame {body rest : List UInt8} (turns : Nat)
    (hzero : ¬ (octets.length ≤ 4 ∧ hostVal octets = 0))
    (hbody : portalBody octets = some (body, rest)) : costPortalHandleConnection codec (turns + 1) after st octets =
      if body.length > 4000000 then some (some st)
      else (codec.unpack body).elim (some none) fun msg =>
        if msg.close = some true then some (some (updateCosts st msg))
        else costPortalHandleConnection codec turns after (updateCosts st msg) rest := by
  obtain ⟨⟨hlen, hsize⟩, hdrop⟩ := portalBody_eq hbody
  have hne : octets ≠ [] := by
    rintro rfl
    cases hlen
  have hhead := take_four_ne hne
  have hrest : octets.drop 4 ≠ [] := by
    intro hnil
    have hle : octets.length ≤ 4 := by simpa using hnil
    rw [hnil, eq_comm, append_eq_nil_iff] at hdrop
    rw [take_of_length_le hle, hdrop.1] at hsize
    exact hzero ⟨hle, hsize⟩
  rw [costPortalHandleConnection, recvWaitall, if_neg hne]
  dsimp only
  rw [if_neg hhead, hsize, recvWaitall, if_neg hrest, hdrop, take_left' rfl, drop_left' rfl]
  rw [if_neg (not_not_intro rfl)]
  cases codec.unpack body <;> rfl

/-- Once no octets are left, the ledger stays, and the loop ends unless it is stuck. -/
theorem closes_nil_iff : Closes codec after st [] st' ↔ st' = st ∧ ¬ Stuck after := by
  constructor
  · rintro ⟨turns, hrun⟩
    induction turns generalizing after with
    | zero => cases hrun
    | succ turns ih =>
      rw [costPortalHandleConnection_nil] at hrun
      split_ifs at hrun with hends
      · refine (ih hrun).imp_right fun hstuck h => hstuck fun k => ?_
        have := h (k + 1)
        rwa [Nat.mul_add] at this
      · cases hrun
        exact ⟨rfl, fun h => hends (h 0)⟩
  · rintro ⟨rfl, hstuck⟩
    obtain ⟨k, hk⟩ := not_forall.1 hstuck
    clear hstuck
    induction k generalizing after with
    | zero => exact ⟨1, (costPortalHandleConnection_nil 0).trans (if_neg hk)⟩
    | succ k ih =>
      by_cases hgoes : after 0 = true ∧ after 1 = false
      · obtain ⟨turns, hrun⟩ := @ih (fun k => after (k + 2)) hk
        exact ⟨turns + 1, (costPortalHandleConnection_nil turns).trans ((if_pos hgoes).trans hrun)⟩
      · exact ⟨1, (costPortalHandleConnection_nil 0).trans (if_neg hgoes)⟩

theorem portalMessages_nil (n : Nat) : portalMessages codec n [] = [] := by
  cases n <;> rfl

/-- A size of 0 at the end adds nothing. -/
theorem portalMessages_zero (n : Nat) (hlen : octets.length ≤ 4) (hzero : hostVal octets = 0) :
    (portalMessages codec (n + 1) octets).foldl updateCosts st = st := by
  rw [portalMessages, portalBody, take_of_length_le hlen, drop_eq_nil_of_le hlen, hzero]
  by_cases h : 4 ≤ octets.length
  · rw [if_pos ⟨h, Nat.zero_le _⟩]
    simp only [take_nil, drop_nil, codec.unpack_nil, portalMessages_nil]
    rfl
  · rw [if_neg fun hboth => h hboth.1]
    rfl

/-- Along the octets, from message to message. -/
theorem closes_iff : ∀ {n : Nat} {st : WiserState} {octets : List UInt8}, octets.length ≤ n →
    (Closes codec after st octets ((portalMessages codec n octets).foldl updateCosts st) ↔
      PortalServes codec n after st octets)
  | 0, st, octets, hn => by
    cases length_eq_zero_iff.1 (Nat.le_zero.1 hn)
    rw [closes_nil_iff]
    exact and_iff_right rfl
  | n + 1, st, octets, hn => by
    unfold PortalServes
    by_cases hne : octets = []
    · rw [if_pos hne, hne, closes_nil_iff]
      exact and_iff_right rfl
    rw [if_neg hne]
    by_cases hzero : octets.length ≤ 4 ∧ hostVal octets = 0
    · rw [if_pos hzero, portalMessages_zero n hzero.1 hzero.2,
      closes_succ fun turns => costPortalHandleConnection_zero turns hne hzero.1 hzero.2]
      cases after 0 with
      | true => simp
      | false =>
        simp only [Bool.false_eq_true, false_or]
        exact closes_nil_iff.trans (and_iff_right rfl)
    rw [if_neg hzero]
    cases hbody : portalBody octets with
    | none =>
      rw [closes_of_closed fun turns => costPortalHandleConnection_short turns hne hzero hbody, portalMessages, hbody]
      exact iff_of_true rfl trivial
    | some frame =>
      obtain ⟨body, rest⟩ := frame
      obtain ⟨⟨hlen, hsize⟩, hdrop⟩ := portalBody_eq hbody
      have hrest : rest.length ≤ n := by
        have := congrArg List.length hdrop
        simp only [length_drop, length_append] at this
        omega
      rw [closes_succ fun turns => costPortalHandleConnection_frame turns hzero hbody, portalMessages, hbody]
      dsimp only
      cases codec.unpack body with
      | none =>
        by_cases hlarge : body.length > 4000000 <;> simp
      | some msg =>
        dsimp only [Option.elim]
        by_cases hlarge : body.length > 4000000
        · simp [hlarge, eq_comm]
        by_cases hclose : msg.close = some true
        · simp [hlarge, hclose, eq_comm]
        simp only [if_neg hlarge, if_neg hclose]
        exact closes_iff hrest

end Connection

/-- For all octets, in whatever pieces they come, the portal ends and the ledger has exactly what the complete messages
in front say, where it serves them. -/
theorem costPortalHandleConnection_exact_iff (codec : BackCodec) (after : Nat → Bool) (st : WiserState)
    (chunks : List (List UInt8)) :
    (∃ turns, costPortalHandleConnection codec turns after st chunks.flatten =
      some (some ((portalMessages codec chunks.flatten.length chunks.flatten).foldl updateCosts st))) ↔
    PortalServes codec chunks.flatten.length after st chunks.flatten :=
  closes_iff (Nat.le_refl _)

/-- An octet that the library does not read as a message: NULL is dereferenced. -/
theorem costPortalHandleConnection_undecodable : ¬ ∃ turns st', costPortalHandleConnection .emptyOnly turns
    (fun _ => false) ⟨fun _ => none, fun _ => none, fun _ => none⟩ [1, 0, 0, 0, 0xff] = some (some st') := by
  rintro ⟨turns, st', hrun⟩
  cases turns with
  | zero => cases hrun
  | succ turns =>
    rw [@costPortalHandleConnection_frame _ _ _ [1, 0, 0, 0, 0xff] [0xff] [] turns (by decide) (by decide)] at hrun
    cases hrun

end Tarpan.Bgpd
