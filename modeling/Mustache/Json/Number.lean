import Mustache.Json

/-!
# Mustache.Json.Number

Reading numbers of a document. Digits are taken into a significand of 64 bits as long as they
fit; a number that is not whole is that significand, rounded once, and then scaled by powers of
ten, rounded again at each step.
-/

namespace Mustache
namespace Json
namespace Number

def digitValue (c : Char) : Nat :=
  c.toNat - '0'.toNat

/-- What significands stay below, `2 ^ 64`. -/
def significandLimit : Nat := 0x10000000000000000

/-- How far whole numbers go below zero, `2 ^ 63`. -/
def negativeLimit : Nat := 0x8000000000000000

/-- Takes digits while the significand stays below its limit, and counts those left over. -/
def absorb (significand : Nat) : List Char → Nat × Nat
  | [] => (significand, 0)
  | c :: cs =>
    let grown := 10 * significand + digitValue c
    if grown < significandLimit then absorb grown cs else (significand, cs.length + 1)

structure Parts where
  negative : Bool
  whole : List Char
  /-- The digits behind the point, if there is a point. -/
  fraction : Option (List Char)
  exponent : Option Int

def exponent? : List Char → Option (Option Int)
  | [] => some none
  | mark :: cs =>
    if mark ≠ 'e' ∧ mark ≠ 'E' then none
    else
      let (sign, digits) : Int × List Char :=
        match cs with
        | '-' :: rest => (-1, rest)
        | '+' :: rest => (1, rest)
        | rest => (1, rest)
      if digits.isEmpty || !digits.all Char.isDigit then none
      else some (some (sign * digits.foldl (fun n c => 10 * n + digitValue c) 0))

/-- Reads a fraction with its point, and gives what follows it. -/
def fraction? : List Char → Option (Option (List Char) × List Char)
  | '.' :: cs =>
    let digits := cs.takeWhile Char.isDigit
    if digits.isEmpty then none else some (some digits, cs.dropWhile Char.isDigit)
  | cs => some (none, cs)

/-- The parts of a number; no zero may stand before its other digits. -/
def parts? (text : List Char) : Option Parts :=
  let (negative, unsigned) : Bool × List Char :=
    match text with
    | '-' :: rest => (true, rest)
    | rest => (false, rest)
  let whole := unsigned.takeWhile Char.isDigit
  if whole.isEmpty ∨ (whole.length > 1 ∧ whole.head? = some '0') then none
  else
    match fraction? (unsigned.dropWhile Char.isDigit) with
    | none => none
    | some (fraction, rest) =>
      match exponent? rest with
      | none => none
      | some exponent => some ⟨negative, whole, fraction, exponent⟩

def powerOfTen (n : Nat) : Option Magnitude :=
  Magnitude.ofDecimal .double 1 n

/-- Multiplies by `10 ^ exponent`, or divides if the exponent is negative. -/
def scaleOnce (m : Magnitude) (exponent : Int) : Option Magnitude :=
  match powerOfTen exponent.natAbs with
  | none => none
  | some power => if 0 ≤ exponent then m.mul .double power else m.div .double power

/-- Divides by `10 ^ 308` as often as said, or until nothing is left. -/
def lessen : Nat → Magnitude → Option Magnitude
  | 0, m => some m
  | count + 1, m =>
    if m.significand = 0 then some m else (scaleOnce m (-308)).bind (lessen count)

/-- Scales a magnitude by `10 ^ exponent`; `none` if the result is too great. A power of ten
below the least one is reached in steps of `10 ^ 308`. -/
def scale (m : Magnitude) (exponent : Int) : Option Magnitude :=
  if exponent.natAbs ≤ 308 then scaleOnce m exponent
  else if m.significand = 0 then some m
  else if 0 ≤ exponent then none
  else
    let steps := (exponent.natAbs - 1) / 308
    (lessen steps m).bind fun small => scaleOnce small (exponent + 308 * steps)

def real? (negative : Bool) (significand : Nat) (exponent : Int) : Option Number :=
  match Magnitude.ofNat .double significand with
  | none => none
  | some m => (scale m exponent).map (.real negative)

/-- The number with these parts; `none` if it is too great. -/
def ofParts (parts : Parts) : Option Number :=
  let (significand, left) := absorb 0 parts.whole
  match parts.fraction, parts.exponent with
  | none, none =>
    if left ≠ 0 then real? parts.negative significand left
    else if !parts.negative then some (.whole significand)
    else if significand = 0 ∨ significand > negativeLimit then real? true significand 0
    else some (.whole (-significand))
  | fraction, exponent =>
    let digits := fraction.getD []
    let (significand, dropped) := absorb significand digits
    let shift : Int := left - (digits.length - dropped : Nat)
    real? parts.negative significand (shift + exponent.getD 0)

def read? (text : List Char) : Option Number :=
  match parts? text with
  | none => none
  | some parts => ofParts parts

end Number
end Json
end Mustache
