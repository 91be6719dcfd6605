import Mustache.Text.Digit

/-!
# Mustache.Toml.Quoted

Strings of TOML, on one line between two quotes or on several lines between three and three.
Between double quotes a backslash begins an escape.
-/

namespace Mustache
namespace Toml

structure Quote where
  mark : Char
  escapes : Bool

namespace Quote

def double : Quote := ⟨'"', true⟩

def single : Quote := ⟨'\'', false⟩

def ofMark? (c : Char) : Option Quote :=
  if c = '"' then some double else if c = '\'' then some single else none

end Quote

/-- Whether a character may stand in a line: any but the controls, of which only the tab may. -/
def isPlain (c : Char) : Bool :=
  c = '\t' || (0x20 ≤ c.toNat && c.toNat ≠ 0x7F)

def isBlank (c : Char) : Bool :=
  c = ' ' || c = '\t'

/-- The character given by hexadecimal digits at the front. -/
def numbered? (count : Nat) (cs : List Char) : Option Char :=
  (Text.numberOf? 16 count cs).bind fun (n, _) =>
    if n.isValidChar then some (Char.ofNat n) else none

/-- The character that an escape stands for, and how many characters follow the backslash. -/
def escape? : List Char → Option (Char × Nat)
  | [] => none
  | c :: rest =>
    if c = '"' ∨ c = '\\' then some (c, 1)
    else if c = 'b' then some ('\x08', 1)
    else if c = 't' then some ('\t', 1)
    else if c = 'n' then some ('\n', 1)
    else if c = 'f' then some ('\x0c', 1)
    else if c = 'r' then some ('\r', 1)
    else if c = 'u' then (numbered? 4 rest).map fun escaped => (escaped, 5)
    else if c = 'U' then (numbered? 8 rest).map fun escaped => (escaped, 9)
    else none

/-- Reads a string behind its opening quote, up to the closing quote on the same line. -/
def readLine (quote : Quote) : List Char → Option (List Char × List Char)
  | [] => none
  | c :: rest =>
    if c = quote.mark then some ([], rest)
    else if quote.escapes ∧ c = '\\' then
      match escape? rest with
      | none => none
      | some (escaped, used) =>
        (readLine quote (rest.drop used)).map fun (cs, after) => (escaped :: cs, after)
    else if isPlain c then (readLine quote rest).map fun (cs, after) => (c :: cs, after)
    else none
termination_by cs => cs.length
decreasing_by all_goals (simp only [List.length_cons, List.length_drop]; omega)

def lineBreak? : List Char → Option (List Char)
  | '\n' :: rest => some rest
  | '\r' :: '\n' :: rest => some rest
  | _ => none

def skipSpace : List Char → List Char
  | '\n' :: rest => skipSpace rest
  | '\r' :: '\n' :: rest => skipSpace rest
  | c :: rest => if isBlank c then skipSpace rest else c :: rest
  | [] => []

/-- What follows a backslash at the end of a line, without the space at its front. -/
def continued? (cs : List Char) : Option (List Char) :=
  (lineBreak? (cs.dropWhile isBlank)).map skipSpace

/-- How many quotes may stand before the three that close a string of several lines. -/
def spareQuotes : Nat := 2

theorem length_of_lineBreak? {cs rest : List Char} (h : lineBreak? cs = some rest) :
    rest.length < cs.length := by
  unfold lineBreak? at h
  split at h <;> cases h <;> simp only [List.length_cons] <;> omega

theorem length_skipSpace_le (cs : List Char) : (skipSpace cs).length ≤ cs.length := by
  fun_induction skipSpace cs <;> simp only [List.length_cons, Nat.le_refl, List.length_nil] <;>
    omega

theorem length_of_continued? {cs rest : List Char} (h : continued? cs = some rest) :
    rest.length < cs.length := by
  unfold continued? at h
  obtain ⟨line, hl, rfl⟩ := Option.map_eq_some_iff.1 h
  have h1 := length_of_lineBreak? hl
  have h2 := (List.dropWhile_suffix isBlank : cs.dropWhile isBlank <:+ cs).length_le
  have h3 := length_skipSpace_le line
  omega

/-- Reads a string of several lines behind the line that it opens on. Every line break stands
for a single line feed. -/
def readLines (quote : Quote) : List Char → Option (List Char × List Char)
  | [] => none
  | c :: rest =>
    if c = quote.mark then
      let marks := 1 + (rest.takeWhile (· == c)).length
      if marks < 3 then (readLines quote rest).map fun (cs, after) => (c :: cs, after)
      else if marks ≤ 3 + spareQuotes then
        some (List.replicate (marks - 3) c, rest.dropWhile (· == c))
      else none
    else if quote.escapes ∧ c = '\\' then
      match _hc : continued? rest with
      | some rest => readLines quote rest
      | none =>
        match escape? rest with
        | none => none
        | some (escaped, used) =>
          (readLines quote (rest.drop used)).map fun (cs, after) => (escaped :: cs, after)
    else
      match _hb : lineBreak? (c :: rest) with
      | some rest => (readLines quote rest).map fun (cs, after) => ('\n' :: cs, after)
      | none =>
        if isPlain c then (readLines quote rest).map fun (cs, after) => (c :: cs, after) else none
termination_by cs => cs.length
decreasing_by
  all_goals first
    | exact length_of_lineBreak? _hb
    | have hc := length_of_continued? _hc; simp only [List.length_cons]; omega
    | simp only [List.length_cons, List.length_drop]; omega

/-- Reads a string of either form behind its first quote. A line break right behind three
opening quotes does not belong to it. -/
def readQuoted (quote : Quote) (cs : List Char) : Option (String × List Char) :=
  let read :=
    if cs.take 2 = [quote.mark, quote.mark] then
      let body := cs.drop 2
      readLines quote ((lineBreak? body).getD body)
    else readLine quote cs
  read.map fun (content, after) => (String.ofList content, after)

end Toml
end Mustache
