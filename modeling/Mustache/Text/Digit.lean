/-!
# Mustache.Text.Digit

Digits in bases up to sixteen, and the numbers that they write.
-/

namespace Mustache
namespace Text

def hexValue? (c : Char) : Option Nat :=
  if '0' ≤ c ∧ c ≤ '9' then some (c.toNat - '0'.toNat)
  else if 'a' ≤ c ∧ c ≤ 'f' then some (c.toNat - 'a'.toNat + 10)
  else if 'A' ≤ c ∧ c ≤ 'F' then some (c.toNat - 'A'.toNat + 10)
  else none

def digitValue? (base : Nat) (c : Char) : Option Nat :=
  (hexValue? c).filter (· < base)

/-- The number that digits of a base write; `none` if there are other characters or none at
all. -/
def number? (base : Nat) (cs : List Char) : Option Nat :=
  if cs.isEmpty then none
  else (cs.mapM (digitValue? base)).map (List.foldl (fun n digit => base * n + digit) 0)

/-- The number written by the first `count` characters, and what follows them. -/
def numberOf? (base count : Nat) (cs : List Char) : Option (Nat × List Char) :=
  if cs.length < count then none
  else (number? base (cs.take count)).map fun n => (n, cs.drop count)

/-- Decimal digits, with zeros before them up to the width. -/
def padded (width n : Nat) : List Char :=
  let digits := Nat.toDigits 10 n
  List.replicate (width - digits.length) '0' ++ digits

end Text
end Mustache
