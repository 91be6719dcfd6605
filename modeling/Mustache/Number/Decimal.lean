import Mustache.Number.Binary

/-!
# Mustache.Number.Decimal

Decimal text of floating point values. The digits are the fewest that read back to the value and,
among as many, those nearest to it; a notation says how they are laid out.
-/

namespace Mustache

/-- The number `coefficient * 10 ^ scale`. -/
structure Decimal where
  coefficient : Nat
  scale : Int
  deriving DecidableEq, Repr

/-- Which way to go when two decimals are equally near. -/
inductive Tie where
  | toEven
  | up
  deriving DecidableEq, Repr

namespace Decimal

/-! ## Choosing the digits -/

/-- How a decimal compares with `n * 2 ^ exponent`. -/
def compareScaled (d : Decimal) (n : Nat) (exponent : Int) : Ordering :=
  compare (d.coefficient * Nat.pow 10 d.scale.toNat * Nat.pow 2 (-exponent).toNat)
    (n * Nat.pow 2 exponent.toNat * Nat.pow 10 (-d.scale).toNat)

/-- Whether the decimal lies among the reals that round to the magnitude. Below a power of two
the neighbour is half as far away as above it. -/
def readsBack (format : BinaryFormat) (m : Magnitude) (d : Decimal) : Bool :=
  let narrow := m.significand = Nat.pow 2 (format.precision - 1) ∧ m.exponent > format.least
  let low := if narrow then 4 * m.significand - 1 else 4 * m.significand - 2
  let high := 4 * m.significand + 2
  let even := m.significand % 2 = 0
  let atLow := d.compareScaled low (m.exponent - 2)
  let atHigh := d.compareScaled high (m.exponent - 2)
  (atLow = .gt ∨ (even ∧ atLow = .eq)) ∧ (atHigh = .lt ∨ (even ∧ atHigh = .eq))

/-- The exponent of the first decimal digit of a magnitude other than zero. -/
def leadingExponent (m : Magnitude) : Int :=
  let num := m.significand * Nat.pow 2 m.exponent.toNat
  let den := Nat.pow 2 (-m.exponent).toNat
  if den ≤ num then (Magnitude.digitCount (num / den) : Int) - 1
  else -(Magnitude.digitCount ((den - 1) / num) : Int)

/-- Whether the magnitude is nearer to the upper of two neighbours on the grid of
`10 ^ scale`. -/
def nearerUp (tie : Tie) (m : Magnitude) (scale : Int) (below : Nat) : Bool :=
  match compareScaled ⟨2 * below + 1, scale⟩ m.significand (m.exponent + 1) with
  | .lt => true
  | .gt => false
  | .eq => tie = .up ∨ below % 2 = 1

/-- The best decimal on the grid of `10 ^ scale` that reads back, if there is one. -/
def onGrid (format : BinaryFormat) (tie : Tie) (m : Magnitude) (scale : Int) : Option Decimal :=
  let num := m.significand * Nat.pow 2 m.exponent.toNat * Nat.pow 10 (-scale).toNat
  let den := Nat.pow 2 (-m.exponent).toNat * Nat.pow 10 scale.toNat
  let below := num / den
  let lower : Decimal := ⟨below, scale⟩
  let upper : Decimal := ⟨below + 1, scale⟩
  match readsBack format m lower, readsBack format m upper with
  | false, false => none
  | true, false => some lower
  | false, true => some upper
  | true, true => some (if nearerUp tie m scale below then upper else lower)

/-- Tries grids of one more digit each, as many as `count`. -/
def search (format : BinaryFormat) (tie : Tie) (m : Magnitude) : Nat → Int → Option Decimal
  | 0, _ => none
  | count + 1, scale =>
    match onGrid format tie m scale with
    | some d => some d
    | none => search format tie m count (scale - 1)

/-- The same number without zeros at the end of the coefficient. -/
def strip (d : Decimal) : Decimal :=
  let zeros := ((Nat.toDigits 10 d.coefficient).reverse.takeWhile (· == '0')).length
  if d.coefficient = 0 then ⟨0, 0⟩ else ⟨d.coefficient / Nat.pow 10 zeros, d.scale + zeros⟩

def exactly (m : Magnitude) : Decimal :=
  ⟨m.significand * Nat.pow 2 m.exponent.toNat * Nat.pow 5 (-m.exponent).toNat, min m.exponent 0⟩

/-- The fewest digits that read back to the magnitude. -/
def shortest (format : BinaryFormat) (tie : Tie) (m : Magnitude) : Decimal :=
  if m.significand = 0 then ⟨0, 0⟩
  else strip ((search format tie m 17 (leadingExponent m)).getD (exactly m))

end Decimal

/-! ## Reading -/

def Decimal.digitsValue (digits : List Char) : Nat :=
  digits.foldl (fun n c => 10 * n + (c.toNat - '0'.toNat)) 0

/-- The decimal with these digits before and behind the point, times a power of ten. -/
def Decimal.ofDigits (whole fraction : List Char) (exponent : Int) : Decimal :=
  ⟨digitsValue (whole ++ fraction), exponent - fraction.length⟩

def Decimal.exponentOf : List Char → Int
  | '-' :: digits => -(digitsValue digits : Int)
  | '+' :: digits => digitsValue digits
  | digits => digitsValue digits

/-- Reads digits with an optional point and an optional exponent. -/
def Decimal.ofText (text : List Char) : Decimal :=
  let isMark (c : Char) : Bool := c = 'e' || c = 'E'
  let mantissa := text.takeWhile fun c => !isMark c
  let whole := mantissa.takeWhile Char.isDigit
  let fraction := (mantissa.dropWhile Char.isDigit).drop 1
  ofDigits whole fraction (exponentOf ((text.dropWhile fun c => !isMark c).drop 1))

def Binary.ofDecimal (format : BinaryFormat) (negative : Bool) (d : Decimal) : Binary :=
  match Magnitude.ofDecimal format d.coefficient d.scale with
  | some magnitude => .finite negative magnitude
  | none => .infinite negative

/-- Reads digits with an optional point and an optional exponent. -/
def Binary.ofText (format : BinaryFormat) (negative : Bool) (text : List Char) : Binary :=
  ofDecimal format negative (Decimal.ofText text)

/-! ## Layout -/

structure Notation where
  tie : Tie
  /-- The exponents of the first digit that are written without an exponent. -/
  positional : Int → Bool
  /-- Whether whole numbers written without an exponent end in `.0`. -/
  pointZero : Bool

namespace Notation

/-- Digits and the exponent of the first one, without an exponent. -/
def layoutPositional (form : Notation) (digits : List Char) (first : Int) : List Char :=
  let zero := if form.pointZero then ['.', '0'] else []
  if first < 0 then '0' :: '.' :: List.replicate (-first - 1).toNat '0' ++ digits
  else
    let whole := first.toNat + 1
    if digits.length ≤ whole then
      digits ++ List.replicate (whole - digits.length) '0' ++ zero
    else digits.take whole ++ '.' :: digits.drop whole

/-- Digits and the exponent of the first one, with an exponent. -/
def layoutScientific (digits : List Char) (first : Int) : List Char :=
  let fraction :=
    match digits.drop 1 with
    | [] => []
    | rest => '.' :: rest
  let sign := if first < 0 then '-' else '+'
  digits.take 1 ++ fraction ++ 'e' :: sign :: Nat.toDigits 10 first.natAbs

def layout (form : Notation) (d : Decimal) : List Char :=
  let digits := Nat.toDigits 10 d.coefficient
  let first := d.scale + digits.length - 1
  if form.positional first then form.layoutPositional digits first
  else layoutScientific digits first

def finiteText (form : Notation) (format : BinaryFormat) (negative : Bool) (m : Magnitude) :
    String :=
  let digits := form.layout (Decimal.shortest format form.tie m)
  String.ofList (if negative then '-' :: digits else digits)

def text (form : Notation) (format : BinaryFormat) : Binary → String
  | .finite negative magnitude => form.finiteText format negative magnitude
  | .infinite negative => if negative then "-inf" else "inf"
  | .notANumber => "NaN"

/-- Numbers of host data: never an exponent, and no point behind a whole number. -/
def plain : Notation where
  tie := .up
  positional := fun _ => true
  pointZero := false

/-- Numbers of documents: an exponent from sixteen digits before the point or five zeros behind it
on, and a point in every number without one. -/
def document : Notation where
  tie := .toEven
  positional := fun first => -5 ≤ first && first ≤ 15
  pointZero := true

end Notation
end Mustache
