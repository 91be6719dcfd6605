import Mustache.Text.Search

/-!
# Mustache.Files.Glob

Patterns for names: `?` is any character, `*` any run of characters, `[…]` one character of a
class and `[!…]` one outside it. `**` alone between slashes stands for any depth of folders.
-/

namespace Mustache
namespace Glob

inductive Atom where
  | literal (c : Char)
  | anyOne
  | anyRun
  | anyDepth
  /-- One character in one of the ranges. -/
  | oneOf (ranges : List (Char × Char))
  /-- One character in none of the ranges. -/
  | noneOf (ranges : List (Char × Char))
  deriving DecidableEq, Repr

inductive Defect where
  /-- Three stars or more in a row. -/
  | manyStars
  /-- Two stars beside something other than a slash. -/
  | depthInName
  /-- A class that is not closed or holds nothing. -/
  | badClass
  deriving DecidableEq, Repr

structure Fault where
  position : Nat
  defect : Defect
  deriving DecidableEq, Repr

def Defect.message : Defect → String
  | .manyStars => "wildcards are either regular `*` or recursive `**`"
  | .depthInName => "recursive wildcards must form a single path component"
  | .badClass => "invalid range pattern"

def Fault.message (fault : Fault) : String :=
  "Pattern syntax error near position " ++ toString fault.position ++ ": " ++ fault.defect.message

/-! ## Reading patterns -/

/-- The ranges of a class; a character that begins no range is a range of its own. -/
def ranges : List Char → List (Char × Char)
  | low :: '-' :: high :: rest => (low, high) :: ranges rest
  | c :: rest => (c, c) :: ranges rest
  | [] => []

/-- Reads a class up to its bracket; the first character belongs to it whatever it is. -/
def readClass : List Char → Option (List Char × List Char)
  | [] => none
  | first :: rest =>
    match Text.cut? [']'] rest with
    | none => none
    | some (more, after) => some (first :: more, after)

theorem length_after_readClass {cs content after : List Char}
    (h : readClass cs = some (content, after)) : after.length < cs.length := by
  unfold readClass at h
  split at h
  · cases h
  · split at h
    · cases h
    · next hc =>
      cases h
      have := Text.length_after_cut? hc
      simp only [List.length_cons, List.length_nil] at this ⊢
      omega

/-- Reads a pattern with `position` characters before it, the last of them being `before`. -/
def read (before : Option Char) (position : Nat) : List Char → Except Fault (List Atom)
  | [] => .ok []
  | '*' :: '*' :: '*' :: _ => .error ⟨position + 2, .manyStars⟩
  | '*' :: '*' :: rest =>
    if before = none ∨ before = some '/' then
      match rest with
      | [] => .ok [.anyDepth]
      | '/' :: rest => (read (some '/') (position + 3) rest).map (.anyDepth :: ·)
      | _ => .error ⟨position + 2, .depthInName⟩
    else .error ⟨position - 1, .depthInName⟩
  | '*' :: rest => (read (some '*') (position + 1) rest).map (.anyRun :: ·)
  | '?' :: rest => (read (some '?') (position + 1) rest).map (.anyOne :: ·)
  | '[' :: '!' :: rest =>
    match _h : readClass rest with
    | none => .error ⟨position, .badClass⟩
    | some (content, after) =>
      (read (some ']') (position + 3 + content.length) after).map (.noneOf (ranges content) :: ·)
  | '[' :: rest =>
    match _h : readClass rest with
    | none => .error ⟨position, .badClass⟩
    | some (content, after) =>
      (read (some ']') (position + 2 + content.length) after).map (.oneOf (ranges content) :: ·)
  | c :: rest => (read (some c) (position + 1) rest).map (.literal c :: ·)
termination_by cs => cs.length
decreasing_by
  all_goals simp_wf
  all_goals first
    | omega
    | have := length_after_readClass _h; omega

def ofText (text : List Char) : Except Fault (List Atom) :=
  read none 0 text

/-! ## Matching names -/

def inRanges (ranges : List (Char × Char)) (c : Char) : Bool :=
  ranges.any fun (low, high) => low ≤ c && c ≤ high

/-- Whether an atom other than a run stands for the character. -/
def Atom.stands (c : Char) : Atom → Bool
  | .literal own => c = own
  | .anyOne => true
  | .oneOf ranges => inRanges ranges c
  | .noneOf ranges => !inRanges ranges c
  | .anyRun | .anyDepth => false

/-! The ends of a text are the text itself, each shorter text that it ends in, and the empty one at
last. Which of them a pattern stands for is a list with one truth value for each. -/

/-- Whether an end satisfies something if it is the one marked or an end of it is. -/
def anyEnd : List Bool → List Bool
  | [] => []
  | mark :: marks =>
    let later := anyEnd marks
    (mark || later.head?.getD false) :: later

/-- The ends that begin with a character of the atom and go on with a marked end. -/
def Atom.before (atom : Atom) : List Char → List Bool → List Bool
  | c :: cs, _ :: marks => (atom.stands c && marks.head?.getD false) :: atom.before cs marks
  | _, _ => [false]

def coveredEnds (cs : List Char) : List Atom → List Bool
  | [] => List.replicate cs.length false ++ [true]
  | .anyRun :: atoms | .anyDepth :: atoms => anyEnd (coveredEnds cs atoms)
  | atom :: atoms => atom.before cs (coveredEnds cs atoms)

def covers (atoms : List Atom) (cs : List Char) : Bool :=
  (coveredEnds cs atoms).head?.getD false

/-- The text that the atoms spell out, if they are all literal. -/
def literal? : List Atom → Option (List Char)
  | [] => some []
  | .literal c :: atoms => (literal? atoms).map (c :: ·)
  | _ :: _ => none

end Glob
end Mustache
