/-
A route that goes along a chain of Wiser ASes: the first originates it, every other one receives it,
keeps it and sends it on to the next. What each of them then holds names the AS before it and the
cost of the links so far, as long as the sum fits 32 bits and the attribute that `tarpan_intern`
returns is the one that was received.
-/
import Tarpan.Bgpd.Wiser.Handler

namespace Tarpan.Bgpd

open Option

/-! ## The run -/

/-- A receiver of the chain, with the attributes it allocates: `tIn` for what it receives and `tOut`
for what it sends. -/
structure WiserHop where
  speaker : Speaker WiserState
  tIn : TarpanAttr
  tOut : TarpanAttr

/-- A receiver after the run: the attribute it holds, and its process when it had received and when it
had sent on. -/
structure Station where
  held : TarpanAttr
  received : Speaker WiserState
  resent : Speaker WiserState

/-- `sender` sends the attribute it holds (`none`: it originates the route) to the first receiver, and
this one on to the next. The result is the sender after it has sent, and the receivers. -/
def runChain (codec : TarpanCodec) (sender : Speaker WiserState) (held : Option TarpanAttr) (tOut : TarpanAttr) :
    List WiserHop → Option (Speaker WiserState × List Station)
  | [] => some (sender, [])
  | hop :: hops => do
    let (octets, sender') ← packetTarpan codec (some wiserProtocolHandler) hop.speaker.bgp.as sender held tOut
    let (tarpan, received) ← bgpTarpanParse codec (some wiserProtocolHandler) sender.bgp.as hop.speaker octets hop.tIn
    let tarpan ← tarpan
    let (resent, stations) ← runChain codec received (some tarpan) hop.tOut hops
    pure (sender', ⟨tarpan, received, resent⟩ :: stations)

/-- The cost of the link over which the receiver hears from `senderAs`. -/
def WiserHop.linkCost (hop : WiserHop) (senderAs : UInt32) : Nat :=
  (wiserGetPathCost hop.speaker.state senderAs hop.speaker.bgp.as).toInt.toNat

def chainCost : UInt32 → List WiserHop → Nat
  | _, [] => 0
  | senderAs, hop :: hops => hop.linkCost senderAs + chainCost hop.speaker.bgp.as hops

/-- The message names `senderAs` as its sender and has the cost `cost`. -/
def TarpanMsg.Reports (msg : TarpanMsg) (senderAs : UInt32) (cost : Nat) : Prop :=
  (msg.wiser.getD wiserNewDefault).senderAs = senderAs ∧ (msg.wiser.getD wiserNewDefault).pathCost.toNat = cost

/-- The cost composes along the chain: every receiver's message has a Wiser part that names the AS
before it, and a cost that is not less than before and is the sum so far, and it is still the
same after the receiver has sent on. -/
def Composes : UInt32 → Nat → List WiserHop → List Station → Prop
  | _, _, [], [] => True
  | senderAs, sum, hop :: hops, station :: stations =>
    (∃ msg w, station.received.store.content station.held = some msg ∧ msg.wiser = some w ∧
      w.senderAs = senderAs ∧ w.pathCost.toNat = sum + hop.linkCost senderAs ∧ sum ≤ w.pathCost.toNat) ∧
    station.resent.store.content station.held = station.received.store.content station.held ∧
    Composes hop.speaker.bgp.as (sum + hop.linkCost senderAs) hops stations
  | _, _, _, _ => False

/-- At no receiver does the address of the new message agree in its low half with that of a live
attribute's message, unless this names the same sender and has the same cost. -/
def NoClash : UInt32 → Nat → List WiserHop → Prop
  | _, _, [] => True
  | senderAs, sum, hop :: hops =>
    (∀ x msg, hop.speaker.store.Live x → tarpanHashMake x = tarpanHashMake hop.tIn →
      hop.speaker.store.content x = some msg → msg.Reports senderAs sum) ∧
    NoClash hop.speaker.bgp.as (sum + hop.linkCost senderAs) hops

/-- What is asked of a receiver before the run: its store is in order, `malloc` returns memory that is
not in use, and the configured costs are not negative. -/
structure WiserHop.Ready (hop : WiserHop) : Prop where
  store : hop.speaker.store.Ok
  tIn : hop.speaker.store.Fresh hop.tIn
  tOut : ∃ m, hop.tOut.message = some m ∧ hop.speaker.store.messages m = none
  apart : hop.tIn.message ≠ hop.tOut.message
  costs : ∀ pair cost, hop.speaker.state.pathCosts pair = some cost → 0 ≤ cost

/-! ## The handlers on one message -/

/-- With or without a gulf, the received message gets the cost of the link added. -/
theorem wiserPacketReceivedHandler_wiser (peerAs : UInt32) (bgp : Bgp) (st : WiserState) (msg : TarpanMsg) :
    (wiserPacketReceivedHandler peerAs bgp st msg).2.wiser =
      some { msg.wiser.getD wiserNewDefault with
        pathCost := (msg.wiser.getD wiserNewDefault).pathCost + (wiserGetPathCost st peerAs bgp.as).toUInt32 } := by
  unfold wiserPacketReceivedHandler applyNormalization
  dsimp only
  split <;> rfl

variable {hop : WiserHop}

theorem WiserHop.Ready.toNat_cost (h : hop.Ready) (senderAs : UInt32) :
    (wiserGetPathCost hop.speaker.state senderAs hop.speaker.bgp.as).toUInt32.toNat = hop.linkCost senderAs := by
  apply Int32.toNat_toUInt32_of_le
  unfold wiserGetPathCost
  cases hcost : hop.speaker.state.pathCosts (asPair senderAs.toInt32 hop.speaker.bgp.as.toInt32) with
  | none => decide
  | some cost => exact h.costs _ _ hcost

variable {cost : UInt32} {sender : Speaker WiserState} {held : Option TarpanAttr} {tOut : TarpanAttr}

/-- The receiver's cost is the right one exactly where the message that came in had the right one and
the addition does not wrap. -/
theorem toNat_add_eq_iff {link : UInt32} {sum : Nat} (hsum : sum < 2 ^ 32) :
    (cost + link).toNat = sum + link.toNat ↔ cost.toNat = sum ∧ sum + link.toNat < 2 ^ 32 := by
  have := cost.toNat_lt
  rw [UInt32.toNat_add]
  omega

/-! ## One hop -/

/-- The sender is about to send the cost `cost`: it originates the route, or holds a message with that
cost; what it allocates is not the message it holds. -/
def Offers (sender : Speaker WiserState) (held : Option TarpanAttr) (tOut : TarpanAttr) (cost : UInt32) : Prop :=
  tOut.message.isSome ∧
  match held with
  | none => cost = 0
  | some x => x.message ≠ tOut.message ∧
    ∃ msg w, sender.store.content x = some msg ∧ msg.wiser = some w ∧ w.pathCost = cost

open TarpanStore

/-- The sender's octets are a message with its own AS and the cost it holds, and what it holds stays. -/
theorem packetTarpan_offers (codec : TarpanCodec) (peerAs : UInt32) (h : Offers sender held tOut cost) :
    ∃ msg sender', packetTarpan codec (some wiserProtocolHandler) peerAs sender held tOut =
        some (codec.pack msg, sender') ∧
      msg.Reports sender.bgp.as cost.toNat ∧
      ∀ x, held = some x → sender'.store.content x = sender.store.content x := by
  obtain ⟨hout, h⟩ := h
  cases held with
  | none =>
    subst h
    simp only [packetTarpan, tarpanInitializePacket, callHandler, place_content_self hout, map_some, bind_eq_bind,
      bind_some]
    exact ⟨_, _, rfl, ⟨rfl, rfl⟩, by rintro _ ⟨⟩⟩
  | some x =>
    obtain ⟨hne, msg, w, hmsg, hw, rfl⟩ := h
    simp only [packetTarpan, tarpanUpdatePacket, tarpanCopy, callHandler, hmsg, codec.unpack_pack,
      place_content_self hout, wiserProtocolHandler, map_some, bind_eq_bind, bind_some, wiserUpdatePacket, hw]
    refine ⟨_, _, rfl, ⟨rfl, rfl⟩, ?_⟩
    rintro y ⟨⟩
    rw [place_content_of_ne hne, place_content_of_ne hne]

/-- The receiver holds the attribute that is returned for the new one: its message is the one that came
in, or that of the live attribute whose message's address agrees. It gets the link's cost added. -/
theorem bgpTarpanParse_ready (codec : TarpanCodec) (peerAs : UInt32) (msg : TarpanMsg) (h : hop.Ready) :
    ∃ held got received, bgpTarpanParse codec (some wiserProtocolHandler) peerAs hop.speaker (codec.pack msg) hop.tIn =
        some (some held, received) ∧
      received.bgp = hop.speaker.bgp ∧ held.message ≠ hop.tOut.message ∧
      received.store.content held = some (wiserPacketReceivedHandler peerAs hop.speaker.bgp hop.speaker.state got).2 ∧
      (got = msg ∨ ∃ x, hop.speaker.store.Live x ∧ tarpanHashMake x = tarpanHashMake hop.tIn ∧
        hop.speaker.store.content x = some got) ∧
      ∀ x, hop.speaker.store.Live x → tarpanHashMake x = tarpanHashMake hop.tIn →
        hop.speaker.store.content x = some got := by
  obtain ⟨find, s, hint, -, -, hkeep, hkey, hfind, huniq⟩ := tarpanIntern_spec msg h.store h.tIn
  obtain ⟨got, hgot, hne, hfrom⟩ : ∃ got, s.content find = some got ∧ find.message ≠ hop.tOut.message ∧
      (got = msg ∧ ¬ hop.speaker.store.Live find ∨
        hop.speaker.store.Live find ∧ hop.speaker.store.content find = some got) := by
    rcases hfind with ⟨rfl, hmsg⟩ | hlive
    · exact ⟨msg, hmsg, h.apart, .inl ⟨rfl, fun hl => Nat.ne_of_gt hl h.tIn.not_live⟩⟩
    obtain ⟨got, hgot⟩ := isSome_iff_exists.1 (h.store.allocated find hlive)
    refine ⟨got, by rw [hkeep find hlive, hgot], fun heq => ?_, .inr ⟨hlive, hgot⟩⟩
    obtain ⟨m, hm, hnone⟩ := h.tOut
    rw [content, heq, hm, bind_some, hnone] at hgot
    cases hgot
  have hsome : find.message.isSome := by
    cases hm : find.message with
    | none => rw [content, hm] at hgot; cases hgot
    | some m => rfl
  let after := wiserPacketReceivedHandler peerAs hop.speaker.bgp hop.speaker.state got
  refine ⟨find, got, ⟨hop.speaker.bgp, after.1, s.place find after.2⟩, ?_, rfl, hne, ?_, ?_, ?_⟩
  · simp only [bgpTarpanParse, tarpanReceived, codec.pack_ne_nil, codec.unpack_pack, hint, callHandler, hgot,
      bind_eq_bind, bind_some]
    rfl
  · exact place_content_self hsome
  · rcases hfrom with ⟨hmsg, -⟩ | ⟨hlive, hcont⟩
    · exact .inl hmsg
    · exact .inr ⟨find, hlive, hkey, hcont⟩
  · intro x hx hxkey
    obtain rfl := huniq x hx hxkey
    rcases hfrom with ⟨-, hdead⟩ | ⟨-, hcont⟩
    · exact absurd hx hdead
    · exact hcont

/-- Over one link the route goes through: the sender keeps what it holds, and the receiver holds a message
that it can send on. It is the right one exactly where the sum fits and no address clashes. -/
theorem runHop_spec (codec : TarpanCodec) (hoffer : Offers sender held tOut cost) (hhop : hop.Ready) :
    ∃ octets sender' tarpan received msg w,
      packetTarpan codec (some wiserProtocolHandler) hop.speaker.bgp.as sender held tOut = some (octets, sender') ∧
      bgpTarpanParse codec (some wiserProtocolHandler) sender.bgp.as hop.speaker octets hop.tIn =
        some (some tarpan, received) ∧
      (∀ x, held = some x → sender'.store.content x = sender.store.content x) ∧
      received.bgp = hop.speaker.bgp ∧ received.store.content tarpan = some msg ∧ msg.wiser = some w ∧
      Offers received (some tarpan) hop.tOut w.pathCost ∧
      (w.senderAs = sender.bgp.as ∧ w.pathCost.toNat = cost.toNat + hop.linkCost sender.bgp.as ↔
        cost.toNat + hop.linkCost sender.bgp.as < 2 ^ 32 ∧
          ∀ x msg, hop.speaker.store.Live x → tarpanHashMake x = tarpanHashMake hop.tIn →
            hop.speaker.store.content x = some msg → msg.Reports sender.bgp.as cost.toNat) := by
  obtain ⟨msg, sender', hsend, hsent, hkeep⟩ := packetTarpan_offers codec hop.speaker.bgp.as hoffer
  obtain ⟨tarpan, got, received, hparse, hbgp, hne, hcont, hgot, hclash⟩ :=
    bgpTarpanParse_ready codec sender.bgp.as msg hhop
  have hw := wiserPacketReceivedHandler_wiser sender.bgp.as hop.speaker.bgp hop.speaker.state got
  obtain ⟨m, hm, -⟩ := hhop.tOut
  refine ⟨_, sender', tarpan, received, _, _, hsend, hparse, hkeep, hbgp, hcont, hw,
    ⟨by rw [hm]; rfl, hne, _, _, hcont, hw, rfl⟩, ?_⟩
  have hadd := @toNat_add_eq_iff (got.wiser.getD wiserNewDefault).pathCost
    (wiserGetPathCost hop.speaker.state sender.bgp.as hop.speaker.bgp.as).toUInt32 _ cost.toNat_lt
  rw [hhop.toNat_cost] at hadd
  constructor
  · rintro ⟨hsnd, hcost⟩
    obtain ⟨hgotcost, hfits⟩ := hadd.1 hcost
    refine ⟨hfits, ?_⟩
    intro x msg' hx hkey hmsg'
    rw [hclash x hx hkey] at hmsg'
    cases hmsg'
    exact ⟨hsnd, hgotcost⟩
  · rintro ⟨hfits, hno⟩
    -- what was sent is right, so what was interned is right where no address clashes
    have hreports : got.Reports sender.bgp.as cost.toNat := by
      rcases hgot with rfl | ⟨x, hx, hkey, hcontent⟩
      · exact hsent
      · exact hno x got hx hkey hcontent
    exact ⟨hreports.1, hadd.2 ⟨hreports.2, hfits⟩⟩

/-! ## The chain -/

/-- From any sender, the run goes through to the end; the sender keeps what it holds, and the costs
compose exactly where their sum fits and no address clashes. -/
theorem runChain_spec (codec : TarpanCodec) : ∀ (hops : List WiserHop) (sender : Speaker WiserState)
    (held : Option TarpanAttr) (tOut : TarpanAttr) (cost : UInt32), Offers sender held tOut cost →
    (∀ hop ∈ hops, hop.Ready) → ∃ sender' stations, runChain codec sender held tOut hops = some (sender', stations) ∧
      (∀ x, held = some x → sender'.store.content x = sender.store.content x) ∧
      (Composes sender.bgp.as cost.toNat hops stations ↔
        cost.toNat + chainCost sender.bgp.as hops < 2 ^ 32 ∧ NoClash sender.bgp.as cost.toNat hops)
  | [], sender, held, tOut, cost, _, _ => by
    refine ⟨sender, [], rfl, fun _ _ => rfl, ?_⟩
    simpa [Composes, chainCost, NoClash] using cost.toNat_lt
  | hop :: hops, sender, held, tOut, cost, hoffer, hready => by
    obtain ⟨octets, sender', tarpan, received, msg, w, hsend, hparse, hkeep, hbgp, hmsg, hw, hnext, hright⟩ :=
      runHop_spec codec hoffer (hready hop List.mem_cons_self)
    obtain ⟨resent, stations, hrun, hheld, hiff⟩ := runChain_spec codec hops received (some tarpan) hop.tOut _ hnext
      fun hop' hmem => hready hop' (List.mem_cons_of_mem _ hmem)
    refine ⟨sender', ⟨tarpan, received, resent⟩ :: stations, ?_, hkeep, ?_⟩
    · simp [runChain, hsend, hparse, hrun]
    rw [hbgp] at hiff
    rw [chainCost, ← Nat.add_assoc]
    constructor
    · rintro ⟨⟨msg', w', hmsg', hw', hsnd, hcost, -⟩, -, hrest⟩
      rw [hmsg] at hmsg'
      cases hmsg'
      rw [hw] at hw'
      cases hw'
      rw [hcost] at hiff
      obtain ⟨hsum, hno⟩ := hiff.1 hrest
      exact ⟨hsum, (hright.1 ⟨hsnd, hcost⟩).2, hno⟩
    · rintro ⟨hsum, hno, hrest⟩
      obtain ⟨hsnd, hcost⟩ := hright.2 ⟨(Nat.le_add_right _ _).trans_lt hsum, hno⟩
      rw [hcost] at hiff
      exact ⟨⟨msg, w, hmsg, hw, hsnd, hcost, (Nat.le_add_right _ _).trans_eq hcost.symm⟩,
        hheld tarpan rfl, hiff.2 ⟨hsum, hrest⟩⟩

/-- A process that has received nothing, with one cost for every link. -/
def sampleSpeaker (as : UInt32) (cost : Int32) : Speaker WiserState where
  bgp := { as, routerId := as }
  state := ⟨fun _ => some cost, fun _ => none, fun _ => none⟩
  store := .empty

def sampleHop (as : UInt32) (cost : Int32) : WiserHop := ⟨sampleSpeaker as cost, ⟨16, some 4096⟩, ⟨32, some 8192⟩⟩

theorem sampleHop_ready (as : UInt32) {cost : Int32} (h : 0 ≤ cost) : (sampleHop as cost).Ready where
  store := empty_ok
  tIn := ⟨fun _ hx => absurd hx (Nat.lt_irrefl 0), 4096, rfl, rfl⟩
  tOut := ⟨8192, rfl, rfl⟩
  apart := fun heq => absurd (Option.some.inj heq) (by decide)
  costs := by
    rintro _ _ ⟨⟩
    exact h

theorem sampleHops_noClash : ∀ (hops : List WiserHop) (senderAs : UInt32) (sum : Nat),
    (∀ hop ∈ hops, hop.speaker.store = .empty) → NoClash senderAs sum hops
  | [], _, _, _ => trivial
  | hop :: hops, _, _, h => by
    refine ⟨fun x _ hx => ?_, sampleHops_noClash hops _ _ fun hop' hmem => h hop' (List.mem_cons_of_mem _ hmem)⟩
    rw [h hop List.mem_cons_self] at hx
    exact absurd hx (Nat.lt_irrefl 0)

/-- Along every chain that an originating AS starts, the costs compose exactly where their sum is
below 2 ^ 32 and no address clashes. -/
theorem runChain_composes_iff (codec : TarpanCodec) (origin : Speaker WiserState) (tOut : TarpanAttr)
    (hops : List WiserHop) (hout : tOut.message.isSome) (hready : ∀ hop ∈ hops, hop.Ready) :
    ∃ origin' stations, runChain codec origin none tOut hops = some (origin', stations) ∧
      (Composes origin.bgp.as 0 hops stations ↔
        chainCost origin.bgp.as hops < 2 ^ 32 ∧ NoClash origin.bgp.as 0 hops) := by
  obtain ⟨origin', stations, hrun, -, hiff⟩ := runChain_spec codec hops origin none tOut 0 ⟨hout, rfl⟩ hready
  rw [UInt32.toNat_zero, Nat.zero_add] at hiff
  exact ⟨origin', stations, hrun, hiff⟩

/-- Over two links of cost 5. -/
theorem runChain_composes_two_links : ∃ origin' stations,
    runChain .plain (sampleSpeaker 1 5) none ⟨16, some 4096⟩ [sampleHop 2 5, sampleHop 3 5] =
      some (origin', stations) ∧ Composes 1 0 [sampleHop 2 5, sampleHop 3 5] stations := by
  have hready : ∀ hop ∈ [sampleHop 2 5, sampleHop 3 5], hop.Ready := by
    rintro hop (_ | ⟨_, _ | ⟨_, ⟨⟩⟩⟩) <;> exact sampleHop_ready _ (by decide)
  obtain ⟨origin', stations, hrun, hiff⟩ :=
    runChain_composes_iff .plain (sampleSpeaker 1 5) ⟨16, some 4096⟩ [sampleHop 2 5, sampleHop 3 5] rfl hready
  refine ⟨origin', stations, hrun, hiff.2 ⟨by decide, sampleHops_noClash _ _ _ ?_⟩⟩
  rintro hop (_ | ⟨_, _ | ⟨_, ⟨⟩⟩⟩) <;> rfl

/-- Over three links of the highest cost that can be configured, the cost wraps. -/
theorem not_composes_three_links : ∃ (codec : TarpanCodec) (origin : Speaker WiserState) (tOut : TarpanAttr)
    (hops : List WiserHop) (origin' : Speaker WiserState) (stations : List Station),
    tOut.message.isSome ∧ (∀ hop ∈ hops, hop.Ready) ∧
    runChain codec origin none tOut hops = some (origin', stations) ∧ ¬ Composes origin.bgp.as 0 hops stations := by
  let hop (as : UInt32) : WiserHop := sampleHop as 2147483647
  have hready : ∀ h ∈ [hop 2, hop 3, hop 4], h.Ready := by
    rintro h (_ | ⟨_, _ | ⟨_, _ | ⟨_, ⟨⟩⟩⟩⟩) <;> exact sampleHop_ready _ (by decide)
  obtain ⟨origin', stations, hrun, -, hiff⟩ := runChain_spec .plain [hop 2, hop 3, hop 4] (sampleSpeaker 1 5) none
    ⟨16, some 4096⟩ 0 ⟨rfl, rfl⟩ hready
  refine ⟨_, _, _, _, origin', stations, rfl, hready, hrun, fun hcomposes => ?_⟩
  exact absurd (hiff.1 hcomposes).1 (by decide)

end Tarpan.Bgpd
