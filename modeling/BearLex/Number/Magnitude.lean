/-! The non-negative binary64 numbers and infinity, in order. A magnitude is given by its rank: rank
0 is zero, every further rank is the next greater number, and the last rank is infinity. The ranks
are cut into blocks of `2 ^ 52`; within a block the numbers are evenly spaced. -/

namespace BearLex

/-- A non-negative binary64 number or infinity. -/
structure Magnitude where
  rank : Nat
  rank_le : rank ≤ 2047 * Nat.pow 2 52
  deriving DecidableEq

namespace Magnitude

def top : Nat := 2047 * Nat.pow 2 52

/-- The magnitude of a rank, and infinity for every number above its rank. -/
def ofRank (n : Nat) : Magnitude :=
  ⟨min n top, Nat.min_le_right n top⟩

def zero : Magnitude := ofRank 0

def infinity : Magnitude := ofRank top

/-- The value of a rank, counted in units of `2 ^ (-1074)`. At the rank of infinity it is
`2 ^ 1024`, the number that would follow the greatest finite one. -/
def unitsAt (rank : Nat) : Nat :=
  if rank < Nat.pow 2 52 then rank
  else (Nat.pow 2 52 + rank % Nat.pow 2 52) * Nat.pow 2 (rank / Nat.pow 2 52 - 1)

def units (m : Magnitude) : Nat :=
  unitsAt m.rank

/-- One, in units of `2 ^ (-1074)`. -/
def one : Nat := Nat.pow 2 1074

/-- The greatest rank whose value is at most `units`, as if the blocks went on for ever. -/
def rankBelow (units : Nat) : Nat :=
  (units.log2 - 52) * Nat.pow 2 52 + units / Nat.pow 2 (units.log2 - 52)

/-- The magnitude nearest to `num / den`, and of two that are equally near the one of even rank. -/
def nearest (num den : Nat) : Magnitude :=
  let scaled := num * one
  let below := rankBelow (scaled / den)
  let middle := (unitsAt below + unitsAt (below + 1)) * den
  if 2 * scaled < middle ∨ (2 * scaled = middle ∧ below % 2 = 0) then ofRank below
  else ofRank (below + 1)

/-- The magnitude nearest to `digits * 10 ^ exponent`. -/
def ofDecimal (digits : Nat) (exponent : Int) : Magnitude :=
  if 0 ≤ exponent then nearest (digits * Nat.pow 10 exponent.toNat) 1
  else nearest digits (Nat.pow 10 (-exponent).toNat)

end Magnitude

end BearLex
