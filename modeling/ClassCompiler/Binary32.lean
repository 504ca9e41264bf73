import ClassCompiler.Decimal

/-!
Single-precision numbers by their bit pattern, and their text: the fewest digits that read back
as the same number.
-/
namespace ClassCompiler

structure Binary32 where
  bits : UInt32
  deriving DecidableEq, Repr

namespace Binary32

def isNegative (x : Binary32) : Bool := 0x80000000 ≤ x.bits.toNat

def magnitude (x : Binary32) : Nat := x.bits.toNat % 0x80000000

def isNaN (x : Binary32) : Bool := 0x7f800000 < x.magnitude

def isInfinite (x : Binary32) : Bool := x.magnitude == 0x7f800000

/-- A finite number is `significand · 2 ^ exponent`, up to its sign. -/
def significand (x : Binary32) : Nat :=
  if x.magnitude < 0x800000 then x.magnitude else x.magnitude % 0x800000 + 0x800000

def exponent (x : Binary32) : Int := max (x.magnitude / 0x800000) 1 - 150

/-- Half a unit of the last place to either side, in quarters of a unit; just above a power of two
the numbers below lie twice as close. A range is closed where the significand is even. -/
def range (x : Binary32) : RoundingRange :=
  let m := x.significand
  let up := Nat.pow 2 (x.exponent - 2).toNat
  { low := (4 * m - (if m = 0x800000 then 1 else 2)) * up
    value := 4 * m * up
    high := (4 * m + 2) * up
    denominator := Nat.pow 2 (2 - x.exponent).toNat
    closed := m % 2 == 0 }

/-- The shortest decimal that reads back. All finite numbers lie between `10 ^ 39` and `10 ^ -46`,
and nine digits always suffice. -/
def decimal (x : Binary32) : Decimal :=
  if x.magnitude = 0 then ⟨0, 0⟩ else (x.range.shortest? 39 96).getD ⟨0, 0⟩

/-- Zero, and magnitudes from about `1e-4` up to and without about `1e16`, are written out; the
bounds are the single-precision numbers next to these two. -/
def isPositional (x : Binary32) : Bool :=
  x.magnitude == 0 || (0x38d1b717 ≤ x.magnitude && x.magnitude < 0x5a0e1bca)

def zeros (n : Nat) : String := String.ofList (List.replicate n '0')

def positionalText (d : Decimal) : String :=
  let digits := (toString d.digits).toList
  let point := (digits.length : Int) + d.exponent
  if point ≤ 0 then "0." ++ zeros (-point).toNat ++ String.ofList digits
  else if 0 ≤ d.exponent then String.ofList digits ++ zeros d.exponent.toNat ++ ".0"
  else String.ofList (digits.take point.toNat) ++ "." ++ String.ofList (digits.drop point.toNat)

def scientificText (d : Decimal) : String :=
  let digits := (toString d.digits).toList
  let rest := digits.drop 1
  let fraction := if rest.isEmpty then "" else "." ++ String.ofList rest
  String.ofList (digits.take 1) ++ fraction ++ "e" ++
    toString ((digits.length : Int) - 1 + d.exponent)

def text (x : Binary32) : String :=
  if x.isNaN then "NaN"
  else
    let sign := if x.isNegative then "-" else ""
    if x.isInfinite then sign ++ "inf"
    else if x.isPositional then sign ++ positionalText x.decimal
    else sign ++ scientificText x.decimal

end Binary32
end ClassCompiler
