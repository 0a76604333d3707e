import Std.Data.HashMap
import Std.Data.HashSet

namespace Netlist

/-- Gives the stem of a request if it is free, and else numbers it; numbers tried before are skipped. -/
structure NameSupply where
  taken : Std.HashSet String := {}
  /-- The first number to try for a stem. -/
  counts : Std.HashMap String UInt32 := {}

namespace NameSupply

def reserving (names : List String) : NameSupply := { taken := .ofList names }

/-- The candidates for a stem: itself, then with numbers from 1 on. -/
def candidate (stem : String) (k : Nat) : String :=
  if k = 0 then stem else stem ++ "_" ++ toString k

/-- The number of the first free candidate from `k` on, among the next `tries`. -/
def firstFree (taken : Std.HashSet String) (stem : String) : Nat → Nat → Nat
  | 0, k => k
  | tries + 1, k =>
    if taken.contains (candidate stem k) then firstFree taken stem tries (k + 1) else k

/-- The number of the next name for a stem. Candidates differ, so one more than are taken suffice. -/
def number (s : NameSupply) (stem : String) : Nat :=
  firstFree s.taken stem (s.taken.size + 1) (s.counts.getD stem 0).toNat

/-- A free name for a stem, also where the count has no 32 bits for the number after it and starts
again from 0. -/
def fresh (s : NameSupply) (stem : String) : String × NameSupply :=
  let k := s.number stem
  let name := candidate stem k
  (name, { taken := s.taken.insert name, counts := s.counts.insert stem (.ofNat (k + 1)) })

/-- A free name for a stem, unless the count overflows on the way to it. -/
def fresh? (s : NameSupply) (stem : String) : Option (String × NameSupply) :=
  -- the count that is kept is one more than the number that is given
  if s.number stem + 1 < UInt32.size then some (s.fresh stem) else none

end NameSupply

end Netlist
