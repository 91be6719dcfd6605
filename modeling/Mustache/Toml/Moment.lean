import Mustache.Text.Digit

/-!
# Mustache.Toml.Moment

Dates and times as TOML writes them: a date, a time of day, or both with an optional offset from
universal time.
-/

namespace Mustache
namespace Toml

structure Date where
  year : Nat
  month : Nat
  day : Nat
  deriving DecidableEq, Repr

structure Time where
  hour : Nat
  minute : Nat
  second : Nat
  /-- The digits of the fraction of the second, down to the last one that is not zero. -/
  fraction : List Char
  deriving DecidableEq, Repr

/-- How far local time is ahead of universal time. -/
inductive Offset where
  | universal
  | minutes (ahead : Int)
  deriving DecidableEq, Repr

inductive Moment where
  | date (date : Date)
  | time (time : Time)
  | dateTime (date : Date) (time : Time) (offset : Option Offset)
  deriving DecidableEq, Repr

/-! ## Writing -/

def Date.text (d : Date) : List Char :=
  Text.padded 4 d.year ++ '-' :: Text.padded 2 d.month ++ '-' :: Text.padded 2 d.day

def Time.text (t : Time) : List Char :=
  let fraction := if t.fraction = [] then [] else '.' :: t.fraction
  Text.padded 2 t.hour ++ ':' :: Text.padded 2 t.minute ++ ':' :: Text.padded 2 t.second ++ fraction

def Offset.text : Offset → List Char
  | .universal => ['Z']
  | .minutes ahead =>
    let sign := if ahead < 0 then '-' else '+'
    sign :: Text.padded 2 (ahead.natAbs / 60) ++ ':' :: Text.padded 2 (ahead.natAbs % 60)

def Moment.text : Moment → String
  | .date d => String.ofList d.text
  | .time t => String.ofList t.text
  | .dateTime d t offset =>
    String.ofList (d.text ++ 'T' :: t.text ++ (offset.map Offset.text).getD [])

/-! ## Reading -/

def isLeapYear (year : Nat) : Bool :=
  year % 4 = 0 && (year % 100 ≠ 0 || year % 400 = 0)

def daysIn (year month : Nat) : Nat :=
  if month = 2 then if isLeapYear year then 29 else 28
  else if month = 4 ∨ month = 6 ∨ month = 9 ∨ month = 11 then 30
  else 31

def skipChar (c : Char) : List Char → Option (List Char)
  | [] => none
  | d :: rest => if c = d then some rest else none

def Date.read? (cs : List Char) : Option (Date × List Char) := do
  let (year, cs) ← Text.numberOf? 10 4 cs
  let (month, cs) ← Text.numberOf? 10 2 (← skipChar '-' cs)
  let (day, cs) ← Text.numberOf? 10 2 (← skipChar '-' cs)
  if 1 ≤ month ∧ month ≤ 12 ∧ 1 ≤ day ∧ day ≤ daysIn year month then
    return (⟨year, month, day⟩, cs)
  else none

def fractionLimit : Nat := 9

def fractionOf (digits : List Char) : List Char :=
  ((digits.take fractionLimit).reverse.dropWhile (· == '0')).reverse

/-- Reads a time of day at the front. A minute may have a leap second. -/
def Time.read? (cs : List Char) : Option (Time × List Char) := do
  let (hour, cs) ← Text.numberOf? 10 2 cs
  let (minute, cs) ← Text.numberOf? 10 2 (← skipChar ':' cs)
  let (second, cs) ← Text.numberOf? 10 2 (← skipChar ':' cs)
  if hour ≤ 23 ∧ minute ≤ 59 ∧ second ≤ 60 then
    match cs with
    | '.' :: rest =>
      let digits := rest.takeWhile Char.isDigit
      if digits.isEmpty then none
      else return (⟨hour, minute, second, fractionOf digits⟩, rest.dropWhile Char.isDigit)
    | _ => return (⟨hour, minute, second, []⟩, cs)
  else none

def Offset.read? : List Char → Option Offset
  | ['Z'] | ['z'] => some .universal
  | sign :: cs => do
    let (hour, cs) ← Text.numberOf? 10 2 cs
    let (minute, cs) ← Text.numberOf? 10 2 (← skipChar ':' cs)
    if hour ≤ 23 ∧ minute ≤ 59 ∧ cs = [] then
      let ahead : Int := 60 * hour + minute
      if sign = '+' then return .minutes ahead
      else if sign = '-' then return .minutes (-ahead)
      else none
    else none
  | [] => none

def Moment.read? (cs : List Char) : Option Moment :=
  match Date.read? cs with
  | some (d, []) => some (.date d)
  | some (d, delimiter :: rest) =>
    if delimiter ≠ 'T' ∧ delimiter ≠ 't' ∧ delimiter ≠ ' ' then none
    else
      match Time.read? rest with
      | some (t, []) => some (.dateTime d t none)
      | some (t, rest) => (Offset.read? rest).map fun offset => .dateTime d t (some offset)
      | none => none
  | none =>
    match Time.read? cs with
    | some (t, []) => some (.time t)
    | _ => none

end Toml
end Mustache
