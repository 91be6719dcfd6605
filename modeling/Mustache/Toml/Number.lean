import Mustache.Number.Decimal
import Mustache.Text.Blank
import Mustache.Text.Digit

/-!
# Mustache.Toml.Number

Numbers as TOML writes them. Underscores may stand between digits; a decimal number has no zero
before its other digits; whole numbers have 64 bits.
-/

namespace Mustache
namespace Toml

/-- The digits of a base without the underscores between them. -/
def digits? (base : Nat) (cs : List Char) : Option (List Char) :=
  let groups := Text.splitWhere (· == '_') cs
  if groups.all fun group => (Text.number? base group).isSome then some groups.flatten else none

/-- Decimal digits, none of them a zero before others. -/
def decimalDigits? (cs : List Char) : Option (List Char) :=
  (digits? 10 cs).filter fun digits => digits.length = 1 || digits.head? ≠ some '0'

def signed : List Char → Bool × List Char
  | '-' :: rest => (true, rest)
  | '+' :: rest => (false, rest)
  | rest => (false, rest)

/-- The least whole number that is too great, `2 ^ 63`. -/
def wholeLimit : Int := 0x8000000000000000

def fit? (n : Int) : Option Int :=
  if -wholeLimit ≤ n ∧ n < wholeLimit then some n else none

/-- Reads a whole number: decimal with a sign, or without one in base 16, 8 or 2. -/
def whole? (cs : List Char) : Option Int :=
  let inBase (base : Nat) (cs : List Char) : Option Int :=
    (digits? base cs).bind fun digits => (Text.number? base digits).bind fun n => fit? n
  match cs with
  | '0' :: 'x' :: rest => inBase 16 rest
  | '0' :: 'o' :: rest => inBase 8 rest
  | '0' :: 'b' :: rest => inBase 2 rest
  | _ =>
    let (negative, unsigned) := signed cs
    (decimalDigits? unsigned).bind fun digits =>
      (Text.number? 10 digits).bind fun n => fit? (if negative then -n else n)

/-- Reads an exponent with its mark, and gives it without underscores. -/
def exponentText? : List Char → Option (List Char)
  | [] => some []
  | mark :: cs =>
    if mark ≠ 'e' ∧ mark ≠ 'E' then none
    else
      let (negative, unsigned) := signed cs
      (digits? 10 unsigned).map fun digits => 'e' :: (if negative then '-' :: digits else digits)

/-- Reads what follows the whole part of a number with a point or an exponent, and gives it
without underscores. -/
def fractionText? : List Char → Option (List Char)
  | '.' :: cs =>
    let isDigit (c : Char) : Bool := c.isDigit || c == '_'
    (digits? 10 (cs.takeWhile isDigit)).bind fun digits =>
      (exponentText? (cs.dropWhile isDigit)).map fun exponent => '.' :: digits ++ exponent
  | [] => none
  | cs => exponentText? cs

/-- Reads a floating point value. One that is too great is refused, but not one that is too far
below zero. -/
def real? (cs : List Char) : Option Binary :=
  let (negative, unsigned) := signed cs
  if unsigned = ['i', 'n', 'f'] then some (.infinite negative)
  else if unsigned = ['n', 'a', 'n'] then some .notANumber
  else
    let isDigit (c : Char) : Bool := c.isDigit || c == '_'
    (decimalDigits? (unsigned.takeWhile isDigit)).bind fun digits =>
      (fractionText? (unsigned.dropWhile isDigit)).bind fun rest =>
        match Binary.ofText .double negative (digits ++ rest) with
        | .infinite false => none
        | value => some value

end Toml
end Mustache
