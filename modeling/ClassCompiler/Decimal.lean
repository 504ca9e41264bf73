/-!
Decimals with the fewest digits. A binary fraction stands for every real number that rounds to it;
of the decimals in that range, the shortest one lies on the coarsest grid of powers of ten that
meets the range, and there it is one of the two grid points around the value.
-/
namespace ClassCompiler

structure Decimal where
  digits : Nat
  exponent : Int
  deriving DecidableEq, Repr

/-- A value with the range of numbers that round to it, all over one denominator. The two ends
round to the value only if the range is closed. -/
structure RoundingRange where
  low : Nat
  value : Nat
  high : Nat
  denominator : Nat
  closed : Bool
  deriving DecidableEq, Repr

namespace RoundingRange

def holds (r : RoundingRange) (scale n : Nat) : Bool :=
  if r.closed then r.low * scale ≤ n && n ≤ r.high * scale
  else r.low * scale < n && n < r.high * scale

/-- The point of the grid of step `10 ^ k` that stands for the value: of the two around it the one
that is inside, the nearer if both are, and the larger if they are equally near. -/
def gridPoint? (r : RoundingRange) (k : Int) : Option Nat :=
  let scale := Nat.pow 10 (-k).toNat
  let step := r.denominator * Nat.pow 10 k.toNat
  let below := r.value * scale / step
  match r.holds scale (below * step), r.holds scale ((below + 1) * step) with
  | true, true =>
    if 2 * (r.value * scale) < (2 * below + 1) * step then some below else some (below + 1)
  | true, false => some below
  | false, true => some (below + 1)
  | false, false => none

def shortest? (r : RoundingRange) (top : Int) (count : Nat) : Option Decimal :=
  (List.range count).findSome? fun (i : Nat) =>
    (r.gridPoint? (top - i)).map fun d => ⟨d, top - i⟩

theorem gridPointHolds {r : RoundingRange} {k : Int} {d : Nat} (found : r.gridPoint? k = some d) :
    r.holds (Nat.pow 10 (-k).toNat) (d * (r.denominator * Nat.pow 10 k.toNat)) = true := by
  simp only [gridPoint?] at found
  split at found
  · split at found <;> cases Option.some.inj found <;> assumption
  · cases Option.some.inj found; assumption
  · cases Option.some.inj found; assumption
  · contradiction

theorem shortestHolds {r : RoundingRange} {top : Int} {count : Nat} {d : Decimal}
    (found : r.shortest? top count = some d) :
    r.holds (Nat.pow 10 (-d.exponent).toNat)
      (d.digits * (r.denominator * Nat.pow 10 d.exponent.toNat)) = true := by
  obtain ⟨i, _, hit⟩ := List.exists_of_findSome?_eq_some found
  obtain ⟨n, point, rfl⟩ := Option.map_eq_some_iff.mp hit
  exact gridPointHolds point

end RoundingRange
end ClassCompiler
