/-!
# Mustache.Number.Binary

Binary floating point by exact arithmetic. A magnitude is a natural number times a power of two;
every operation computes the exact result and rounds it once, to nearest and on a tie to the
even neighbour.
-/

namespace Mustache

/-- A binary format. Its magnitudes are below `2 ^ precision` times a power of two whose exponent
lies between `least` and `greatest`. -/
structure BinaryFormat where
  precision : Nat
  least : Int
  greatest : Int

namespace BinaryFormat

def double : BinaryFormat := ⟨53, -1074, 971⟩

def single : BinaryFormat := ⟨24, -149, 104⟩

end BinaryFormat

/-- The number `significand * 2 ^ exponent`. -/
structure Magnitude where
  significand : Nat
  exponent : Int
  deriving DecidableEq, Repr

inductive Binary where
  | finite (negative : Bool) (magnitude : Magnitude)
  | infinite (negative : Bool)
  | notANumber
  deriving DecidableEq, Repr

namespace Magnitude

/-- The quotient to nearest, a tie to the even neighbour. -/
def divideToEven (num den : Nat) : Nat :=
  let quotient := num / den
  match compare (2 * (num % den)) den with
  | .lt => quotient
  | .gt => quotient + 1
  | .eq => if quotient % 2 = 0 then quotient else quotient + 1

/-- `num / den * 2 ^ shift` rounded to a multiple of `2 ^ exponent`, as the multiplier. -/
def multiples (num den : Nat) (shift exponent : Int) : Nat :=
  let distance := shift - exponent
  divideToEven (num * Nat.pow 2 distance.toNat) (den * Nat.pow 2 (-distance).toNat)

/-- The magnitude of the format nearest to `num / den * 2 ^ shift`; `none` if it is too great. -/
def round (format : BinaryFormat) (num den : Nat) (shift : Int) : Option Magnitude :=
  let guess := shift + num.log2 - den.log2 - format.precision
  let exponent := max guess format.least
  let limit := Nat.pow 2 format.precision
  let coarse := multiples num den shift exponent
  let result : Magnitude :=
    if coarse < limit then ⟨coarse, exponent⟩
    else
      let fine := multiples num den shift (exponent + 1)
      if fine < limit then ⟨fine, exponent + 1⟩ else ⟨limit / 2, exponent + 2⟩
  if num = 0 then some ⟨0, format.least⟩
  else if result.exponent ≤ format.greatest then some result
  else none

def ofNat (format : BinaryFormat) (n : Nat) : Option Magnitude :=
  round format n 1 0

def mul (format : BinaryFormat) (a b : Magnitude) : Option Magnitude :=
  round format (a.significand * b.significand) 1 (a.exponent + b.exponent)

def div (format : BinaryFormat) (a b : Magnitude) : Option Magnitude :=
  round format a.significand b.significand (a.exponent - b.exponent)

/-- The number of decimal digits; none for zero. -/
def digitCount (n : Nat) : Nat :=
  if n = 0 then 0 else (Nat.toDigits 10 n).length

/-- The magnitude nearest to `coefficient * 10 ^ scale`. A number past the ends of the format is
recognised by its number of digits. -/
def ofDecimal (format : BinaryFormat) (coefficient : Nat) (scale : Int) : Option Magnitude :=
  let size := digitCount coefficient + scale
  if coefficient = 0 ∨ size < format.least then some ⟨0, format.least⟩
  else if size > format.greatest + format.precision + 1 then none
  else round format (coefficient * Nat.pow 10 scale.toNat) (Nat.pow 10 (-scale).toNat) 0

end Magnitude
end Mustache
