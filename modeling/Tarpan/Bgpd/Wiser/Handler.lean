/-
The Wiser protocol as a Tarpan handler (wiser.cpp, wiser_static_path_costs.hpp, wiser_costs.hpp):
the cost of a link is added where a message is received, and the sender puts its AS and address into
what it sends. The thread that later contacts the cost portal of a sender beyond a gulf is not part of the model.
-/
import Tarpan.Bgpd.Tarpan.Handler

namespace Tarpan.Bgpd

/-- What the protocol keeps: the configured costs, and the costs sent to and received from each AS. -/
structure WiserState where
  pathCosts : UInt64 → Option Int32
  advcostSent : UInt32 → Option UInt32
  advcostRecv : UInt32 → Option UInt32

def incrementMapValue (map : UInt32 → Option UInt32) (key delta : UInt32) : UInt32 → Option UInt32 :=
  Function.update map key (some ((map key).elim delta (· + delta)))

def updateSentCost (st : WiserState) (destination cost : UInt32) : WiserState :=
  { st with advcostSent := incrementMapValue st.advcostSent destination cost }

def updateRecvCost (st : WiserState) («from» cost : UInt32) : WiserState :=
  { st with advcostRecv := incrementMapValue st.advcostRecv «from» cost }

/-- The key of a pair of ASes; both are `int` and are extended with their sign. -/
def asPair (as1 as2 : Int32) : UInt64 :=
  let low := if as2 < as1 then as2 else as1
  let high := if as1 < as2 then as2 else as1
  low.toInt64.toUInt64 <<< 32 ||| high.toInt64.toUInt64

section
variable (peerAs : UInt32) (bgp : Bgp) (st : WiserState) (msg : TarpanMsg)

/-- `wiser_get_path_cost`; the default is `INT16_MAX`. -/
def wiserGetPathCost (as1 as2 : UInt32) : Int32 := (st.pathCosts (asPair as1.toInt32 as2.toInt32)).getD 32767
def wiserNewDefault : Wiser := { pathCost := 0, senderAs := 0, senderAddress := { bytes := 0 } }

/-- Multiplication by `normalization`, which is 1.0 for every peer: a cost of 32 bits goes through
`double` unchanged. -/
def applyNormalization (_peer cost : UInt32) : UInt32 := cost

def wiserPacketReceivedHandler : WiserState × TarpanMsg :=
  let wiser := msg.wiser.getD wiserNewDefault
  let cost := wiser.pathCost + (wiserGetPathCost st peerAs bgp.as).toUInt32
  let st := updateRecvCost st wiser.senderAs cost
  if msg.wiser.isNone || peerAs == wiser.senderAs then
    (st, { msg with wiser := some { wiser with pathCost := cost } })
  else
    -- over a gulf; the thread pool is given the message itself, from which it reads the address when it runs
    (st, { msg with wiser := some { wiser with pathCost := applyNormalization peerAs cost } })

def wiserInitializePacket : WiserState × TarpanMsg :=
  (updateSentCost st peerAs 0,
    { msg with wiser := some { wiserNewDefault with senderAs := bgp.as, senderAddress := { bytes := bgp.routerId } } })

def wiserUpdatePacket : WiserState × TarpanMsg :=
  match msg.wiser with
  | none => wiserInitializePacket peerAs bgp st msg
  | some wiser =>
    (updateSentCost st peerAs wiser.pathCost,
      { msg with wiser := some { wiser with senderAs := bgp.as, senderAddress := { bytes := bgp.routerId } } })

end

def wiserProtocolHandler : TarpanProtocolHandler WiserState where
  packetReceivedHandler := wiserPacketReceivedHandler
  initializePacket := wiserInitializePacket
  updatePacket := wiserUpdatePacket

end Tarpan.Bgpd
