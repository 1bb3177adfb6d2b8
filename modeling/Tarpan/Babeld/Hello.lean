/-
The hellos of a Babel neighbour (babeld/neighbour.c). Bits of the register `reach` stand for the last sixteen hellos
that were expected, newest first. Hellos that were taken for missed are undone by a shift back, and a late one only
resets the expected number. What the register should hold is told by the numbers of the hellos that came.
-/
import Tarpan.Base.Runs
import Mathlib.Data.List.GetD

namespace Tarpan.Babeld

open Base List

/-- The part of `struct neighbour` for hellos, and whether every shift was by less than the width of the register. -/
structure Hellos where
  reach : BitVec 16 := 0
  helloSeqno : Option UInt16 := none
  helloTime : Int := 0
  helloInterval : UInt16 := 0
  inWidth : Bool := true

/-- What comes before a hello is entered. -/
inductive Shift where
  | miss (n : Nat)
  | undo (n : Nat)
  | restart

namespace Shift

def reach : Shift → BitVec 16 → BitVec 16
  | miss n, reach => reach >>> n
  | undo n, reach => reach <<< n
  | restart, _ => 0

def inWidth : Shift → Bool
  | miss n | undo n => n < 16
  | restart => true

end Shift

/-- The milliseconds between two times, which are in microseconds. -/
def timevalMinusMsec (s1 s2 : Int) : Int :=
  let sec := s1 / 1000000 - s2 / 1000000
  let usec := s1 % 1000000 - s2 % 1000000
  if sec < 0 then 0
  else if 2000000 < sec then 2000000000
  else if 0 < sec then sec * 1000 + usec.tdiv 1000
  else if usec ≤ 0 then 0
  else usec / 1000

namespace Hellos

variable (s : Hellos)

def shift (c : Shift) : Hellos :=
  { s with reach := c.reach s.reach, inWidth := s.inWidth && c.inWidth }

def receive (hello : UInt16) : Hellos :=
  { s with reach := s.reach >>> 1 ||| 0x8000, helloSeqno := some hello }

/-- The hellos that are missed. The interval is in centiseconds. -/
def missed (now : Int) : Int :=
  (timevalMinusMsec now s.helloTime - s.helloInterval.toNat * 7).tdiv (s.helloInterval.toNat * 10)

/-- The shift before a hello, which is ignored where it is late. -/
def shiftFor (hello helloInterval : UInt16) : Option Shift :=
  match s.helloSeqno with
  | none => some (.miss 0)
  | some seqno =>
    let missed := (hello - seqno).toBitVec.toInt - 1
    if s.reach = 0 then some (.miss 0)
    else if missed < -8 then some .restart
    else if 0 ≤ missed then some (.miss missed.toNat)
    else if s.helloInterval < helloInterval then some (.undo (-missed).toNat)
    else none

end Hellos

/-- The calls of `update_neighbour`, for a hello and from a timer. -/
inductive HelloCall where
  | hello (hello helloInterval : UInt16) (now : Int)
  | timer (now : Int)

def updateNeighbour (s : Hellos) : HelloCall → Hellos
  | .hello hello helloInterval now =>
    let s' := match s.shiftFor hello helloInterval with
      | some c => (s.shift c).receive hello
      | none => { s with helloSeqno := some hello }
    { s' with helloTime := now, helloInterval }
  | .timer now =>
    if s.helloInterval = 0 ∨ s.missed now ≤ 0 then s
    else { s.shift (.miss (s.missed now).toNat) with
      helloTime := s.helloTime + s.missed now * s.helloInterval.toNat * 10000
      helloSeqno := some (s.helloSeqno.getD 0xffff + .ofInt (s.missed now)) }

/-! ## The hellos that came -/

/-- The hello that is expected last and those that came since the history began, by their numbers without wrap. -/
structure HelloLog where
  newest : Int
  received : List Int

namespace HelloLog

variable (log : HelloLog)

/-- A number of sixteen bits stands for the one that is nearest to the newest. -/
def number (hello : UInt16) : Int := log.newest + (hello - .ofInt log.newest).toBitVec.toInt

/-- A hello comes. One that is more than eight numbers behind restarts the history. -/
def hello (hello : UInt16) : HelloLog where
  newest := log.number hello
  received := if log.number hello - log.newest - 1 < -8 then [log.number hello] else log.number hello :: log.received

theorem ofInt_number (hello : UInt16) : UInt16.ofInt (log.number hello) = hello := by
  have hdiff (x : UInt16) : UInt16.ofInt x.toBitVec.toInt = x := by
    have hmod : x.toBitVec.toInt % (2 ^ 16 : Nat) = x.toNat % (2 ^ 16 : Nat) := by
      rw [BitVec.toInt_eq_toNat_bmod, Int.bmod_emod, UInt16.toNat_toBitVec]
    refine UInt16.toNat_inj.1 ?_
    rw [UInt16.ofInt, UInt16.toNat_ofNat']
    have := x.toNat_lt
    omega
  rw [number, UInt16.ofInt_add, hdiff, UInt16.add_comm, UInt16.sub_add_cancel]

end HelloLog

/-- The register tells which of the last sixteen hellos came, newest first, and every shift was by less than its
width. -/
def Hellos.Tells (s : Hellos) (log : HelloLog) : Prop :=
  (∀ i < 16, s.reach.getMsbD i = decide (log.newest - (i : Nat) ∈ log.received)) ∧ s.inWidth

/-- The neighbour beside its log: the number it keeps is that of the newest hello. -/
structure Heard where
  neigh : Hellos
  log : HelloLog
  seqno : neigh.helloSeqno.getD 0xffff = .ofInt log.newest
  fresh : neigh.helloSeqno = none → log.received = []

namespace Heard

def start : Heard := ⟨{}, ⟨-1, []⟩, rfl, fun _ => rfl⟩

/-- Hellos are expected as the time goes by. -/
def logAfter (x : Heard) : HelloCall → HelloLog
  | .hello hello _ _ => x.log.hello hello
  | .timer now => if x.neigh.helloInterval = 0 ∨ x.neigh.missed now ≤ 0 then x.log
    else { x.log with newest := x.log.newest + x.neigh.missed now }

theorem helloSeqno_hello (s : Hellos) (hello helloInterval : UInt16) (now : Int) :
    (updateNeighbour s (.hello hello helloInterval now)).helloSeqno = some hello := by
  unfold updateNeighbour
  dsimp only
  split <;> rfl

/-- A call, and what it adds to the log. -/
def after (x : Heard) (call : HelloCall) : Heard where
  neigh := updateNeighbour x.neigh call
  log := x.logAfter call
  seqno := by
    cases call with
    | hello hello helloInterval now =>
      rw [helloSeqno_hello]
      exact (x.log.ofInt_number hello).symm
    | timer now =>
      rw [updateNeighbour, logAfter]
      split
      · exact x.seqno
      · rw [Option.getD_some, x.seqno, ← UInt16.ofInt_add]
  fresh := by
    cases call with
    | hello hello helloInterval now =>
      rw [helloSeqno_hello]
      exact nofun
    | timer now =>
      rw [updateNeighbour, logAfter]
      split
      · exact x.fresh
      · exact nofun

def Right (x : Heard) : Prop := x.neigh.Tells x.log

end Heard

/-- A call keeps to what the register can hold. What is taken for missed, or was shifted out and has to come back, did
not come before; a late hello finds the same history before it as is before the newest one. -/
def HelloCall.Kept (x : Heard) : HelloCall → Prop
  | .hello seqno helloInterval _ =>
    let k := x.log.number seqno
    let newest := x.log.newest
    k - newest - 1 < -8 ∨
      if x.neigh.reach = 0 then ∀ j ∈ x.log.received, ¬ (k - 16 < j ∧ j < k)
      else if newest < k then k - newest ≤ 16 ∧ ∀ j ∈ x.log.received, ¬ (newest < j ∧ j < k)
      else if x.neigh.helloInterval < helloInterval then ∀ j ∈ x.log.received, ¬ (k - 16 < j ∧ j ≤ newest - 16)
      else ∀ i < 16, (newest - (i : Nat) ∈ x.log.received ↔ k - (i : Nat) ∈ k :: x.log.received)
  | .timer now => x.neigh.helloInterval = 0 ∨ x.neigh.missed now < 16 ∧
    ∀ j ∈ x.log.received, ¬ (x.log.newest < j ∧ j ≤ x.log.newest + x.neigh.missed now)

namespace Heard

variable {x : Heard}

section Hello
variable {hello helloInterval : UInt16}

end Hello

end Heard

end Tarpan.Babeld
