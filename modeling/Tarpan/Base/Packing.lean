/-
Writing values in octets so that they can be read back, whatever octets follow.
-/
import Tarpan.Base.Words

namespace Tarpan.Base

open List

/-- A way to write values, and to read one in front of other octets. -/
structure Packing (α : Type) where
  put : α → List UInt8
  get : List UInt8 → Option (α × List UInt8)
  get_put : ∀ a rest, get (put a ++ rest) = some (a, rest)

namespace Packing

variable {α β : Type}

def octet : Packing UInt8 where
  put b := [b]
  get octets := octets.head?.map (·, octets.tail)
  get_put _ _ := rfl

/-- Four octets. -/
def word : Packing UInt32 where
  put w := beBytes 4 w.toNat
  get octets := if octets.length < 4 then none else some (.ofNat (beVal (octets.take 4)), octets.drop 4)
  get_put w rest := by
    have hlen : (beBytes 4 w.toNat).length = 4 := beBytes_length ..
    rw [if_neg (by rw [length_append]; omega), take_left' hlen, drop_left' hlen, beVal_beBytes w.toNat_lt,
      UInt32.ofNat_toNat]

/-- A number as so many ones. -/
def number : Packing Nat where
  put n := replicate n 1 ++ [0]
  get octets := some ((octets.takeWhile (· = 1)).length, (octets.dropWhile (· = 1)).tail)
  get_put n rest := by simp [takeWhile_append_of_pos, dropWhile_append_of_pos]

section
variable (p : Packing α)

def pair (q : Packing β) : Packing (α × β) where
  put x := p.put x.1 ++ q.put x.2
  get octets := do
    let (a, octets) ← p.get octets
    let (b, octets) ← q.get octets
    return ((a, b), octets)
  get_put x rest := by simp [append_assoc, p.get_put, q.get_put]

/-- The values that are read are the written ones of another type. -/
def imap (f : β → α) (g : α → Option β) (h : ∀ b, g (f b) = some b) : Packing β where
  put b := p.put (f b)
  get octets := do
    let (a, octets) ← p.get octets
    let b ← g a
    return (b, octets)
  get_put b rest := by simp [p.get_put, h]

def getMany : Nat → List UInt8 → Option (List α × List UInt8)
  | 0, octets => some ([], octets)
  | n + 1, octets => do
    let (a, octets) ← p.get octets
    let (l, octets) ← getMany n octets
    return (a :: l, octets)

theorem getMany_put (rest : List UInt8) : ∀ l : List α, p.getMany l.length (l.flatMap p.put ++ rest) = some (l, rest)
  | [] => rfl
  | a :: l => by simp [getMany, p.get_put, getMany_put rest l]

/-- A list, after its length. -/
def list : Packing (List α) where
  put l := number.put l.length ++ l.flatMap p.put
  get octets := do
    let (n, octets) ← number.get octets
    p.getMany n octets
  get_put l rest := by simp [append_assoc, number.get_put, p.getMany_put]

/-- A value that may be missing is a list of at most one. -/
def option : Packing (Option α) := p.list.imap Option.toList (some ·.head?) fun o => by cases o <;> rfl

end

end Packing

end Tarpan.Base
