import Mathlib.Computability.RegularExpressions
import Mustache.Proofs.CheckedScan

/-!
# Mustache.Proofs.TrimPatterns

What a trimmer allows, as regular expressions over octets. The head of a run may go through the
first match of `blankLine`, and its tail may go where nothing but `blanks` is left of the run, be it
behind the last line feed or from the start. A trimmer that has read so much of a run at any place
of a source decides just that.
-/

namespace Mustache
namespace Trimmer

open RegularExpression

/-- Spaces and tabs, or nothing. -/
def blanks : RegularExpression UInt8 :=
  star (char (0x20 : UInt8) + char 0x09)

/-- A blank line with its end, which may have a carriage return before the line feed. -/
def blankLine : RegularExpression UInt8 :=
  blanks * (1 + char (0x0D : UInt8)) * char 0x0A

theorem mem_blanks {octets : List UInt8} :
    octets ∈ blanks.matches' ↔ octets.all isSpace = true := by
  rw [blanks, matches'_star, matches'_add, matches'_char, matches'_char, Language.mem_kstar]
  constructor
  · rintro ⟨words, rfl, hwords⟩
    rw [List.all_eq_true]
    intro octet hoctet
    obtain ⟨word, hword, hoctet⟩ := List.mem_flatten.1 hoctet
    rcases hwords word hword with rfl | rfl
    · exact isSpace_iff.2 (.inl (List.mem_singleton.1 hoctet))
    · exact isSpace_iff.2 (.inr (List.mem_singleton.1 hoctet))
  · intro h
    refine ⟨octets.map fun octet => [octet], ?_, ?_⟩
    · rw [← List.flatMap_def, List.flatMap_singleton']
    · intro word hword
      obtain ⟨octet, hoctet, rfl⟩ := List.mem_map.1 hword
      rcases isSpace_iff.1 (List.all_eq_true.1 h octet hoctet) with rfl | rfl
      · exact .inl rfl
      · exact .inr rfl

theorem mem_blankLine {octets : List UInt8} :
    octets ∈ blankLine.matches' ↔ ∃ spaces mark, octets = spaces ++ mark ++ [0x0A] ∧
      spaces.all isSpace = true ∧ (mark = [] ∨ mark = [0x0D]) := by
  simp only [blankLine, matches'_mul, Language.mem_mul, mem_blanks]
  constructor
  · rintro ⟨_, ⟨spaces, hspaces, mark, hmark, rfl⟩, _, rfl, rfl⟩
    exact ⟨spaces, mark, rfl, hspaces, hmark⟩
  · rintro ⟨spaces, mark, rfl, hspaces, hmark⟩
    exact ⟨_, ⟨spaces, hspaces, mark, hmark, rfl⟩, _, rfl, rfl⟩

/-! ## The left decision -/

theorem firstBreak?_spaces {spaces : List UInt8} (hspaces : spaces.all isSpace = true)
    {octet : UInt8} (hoctet : isSpace octet = false) (rest : List UInt8) :
    firstBreak? (spaces ++ octet :: rest) =
      if octet = 0x0A then some spaces.length
      else if octet = 0x0D ∧ rest.head? = some 0x0A then some (spaces.length + 1)
      else none := by
  rw [List.all_eq_true] at hspaces
  rw [firstBreak?, List.takeWhile_append_of_pos hspaces, List.dropWhile_append_of_pos hspaces]
  simp [hoctet]

theorem firstBreak?_eq_some_iff {run : List UInt8} {index : Nat} :
    firstBreak? run = some index ↔ ∃ head rest, run = head ++ 0x0A :: rest ∧
      head ++ [0x0A] ∈ blankLine.matches' ∧ index = head.length := by
  constructor
  · intro h
    have hsplit : run = run.takeWhile isSpace ++ run.dropWhile isSpace :=
      List.takeWhile_append_dropWhile.symm
    have hspaces : (run.takeWhile isSpace).all isSpace = true := List.all_takeWhile
    rw [firstBreak?] at h
    cases hrest : run.dropWhile isSpace with
    | nil =>
      rw [hrest] at h
      cases h
    | cons octet rest =>
      rw [hrest] at h hsplit
      simp only at h
      split at h
      · next hlf =>
        cases h
        subst hlf
        exact ⟨_, rest, hsplit, mem_blankLine.2 ⟨_, [], by simp, hspaces, .inl rfl⟩, rfl⟩
      · split at h
        · next hcrlf =>
          obtain ⟨rfl, hhead⟩ := hcrlf
          obtain ⟨rest, rfl⟩ := List.head?_eq_some_iff.1 hhead
          cases h
          refine ⟨run.takeWhile isSpace ++ [0x0D], rest, by simpa using hsplit, ?_, by simp⟩
          exact mem_blankLine.2 ⟨_, [0x0D], rfl, hspaces, .inr rfl⟩
        · cases h
  · rintro ⟨head, rest, rfl, hhead, rfl⟩
    obtain ⟨spaces, mark, hsplit, hspaces, hmark⟩ := mem_blankLine.1 hhead
    obtain rfl : head = spaces ++ mark := List.append_cancel_right hsplit
    rcases hmark with rfl | rfl
    · rw [List.append_nil, firstBreak?_spaces hspaces rfl, if_pos rfl]
    · rw [List.append_assoc, List.singleton_append, firstBreak?_spaces hspaces rfl,
        if_neg (by decide), if_pos ⟨rfl, rfl⟩, List.length_append, List.length_singleton]

theorem leftDecision_eq_allow_iff {run : List UInt8} {boundary : Boundary} :
    (scan run).leftDecision = .allow boundary ↔ ∃ head rest, run = head ++ 0x0A :: rest ∧
      head ++ [0x0A] ∈ blankLine.matches' ∧ boundary = ⟨head.length, true⟩ := by
  rw [leftDecision_scan]
  constructor
  · intro h
    split at h
    · next index hindex =>
      cases h
      obtain ⟨head, rest, hrun, hhead, rfl⟩ := firstBreak?_eq_some_iff.1 hindex
      exact ⟨head, rest, hrun, hhead, rfl⟩
    · cases h
  · rintro ⟨head, rest, hrun, hhead, rfl⟩
    rw [firstBreak?_eq_some_iff.2 ⟨head, rest, hrun, hhead, rfl⟩]

/-! ## The right decision -/

theorem exists_lastFeed {run : List UInt8} (h : 0x0A ∈ run) :
    ∃ head tail, run = head ++ 0x0A :: tail ∧ 0x0A ∉ tail := by
  obtain ⟨tail, head, hreverse, htail⟩ := List.eq_append_cons_of_mem (List.mem_reverse.2 h)
  refine ⟨head.reverse, tail.reverse, ?_, by simpa using htail⟩
  simpa using congrArg List.reverse hreverse

theorem lineFeed_not_mem {octets : List UInt8} (h : octets.all isSpace = true) :
    0x0A ∉ octets := by
  intro hmem
  have := List.all_eq_true.1 h _ hmem
  cases this

theorem rightDecision_eq_allow_iff {run : List UInt8} {boundary : Boundary} :
    (scan run).rightDecision = .allow boundary ↔
      (∃ head tail, run = head ++ 0x0A :: tail ∧ tail ∈ blanks.matches' ∧
        boundary = ⟨head.length + 1, true⟩) ∨
      run ∈ blanks.matches' ∧ boundary = ⟨0, false⟩ := by
  simp only [mem_blanks]
  constructor
  · intro h
    by_cases hfeed : 0x0A ∈ run
    · obtain ⟨head, tail, rfl, htail⟩ := exists_lastFeed hfeed
      rw [rightDecision_scan_append htail] at h
      split at h
      · next hblank =>
        cases h
        exact .inl ⟨head, tail, rfl, hblank, rfl⟩
      · cases h
    · rw [rightDecision_scan hfeed] at h
      split at h
      · next hblank =>
        cases h
        exact .inr ⟨hblank, rfl⟩
      · cases h
  · rintro (⟨head, tail, rfl, hblank, rfl⟩ | ⟨hblank, rfl⟩)
    · rw [rightDecision_scan_append (lineFeed_not_mem hblank), if_pos hblank]
    · rw [rightDecision_scan (lineFeed_not_mem hblank), if_pos hblank]

/-! ## Runs of a source -/

/-- A trimmer that is fed octets in turn, at their places in a source and from any place on, knows
nothing but these octets, whether they are a whole run or what has been read of one by then. It
lets the head go just through a blank line that they begin with, the boundary being its line feed;
and the tail just from behind their last line feed if they are blank from there on, or as a whole
if they are blank altogether. It preserves what it does not let go. -/
theorem scan_decisions (run : List UInt8) :
    let t := scan run
    (∀ before after, Checked.trimmer? (before ++ run ++ after) before.length
      (before.length + run.length) = some t) ∧
    (∀ boundary, t.leftDecision = .allow boundary ↔ ∃ head rest, run = head ++ 0x0A :: rest ∧
      head ++ [0x0A] ∈ blankLine.matches' ∧ boundary = ⟨head.length, true⟩) ∧
    ∀ boundary, t.rightDecision = .allow boundary ↔
      (∃ head tail, run = head ++ 0x0A :: tail ∧ tail ∈ blanks.matches' ∧
        boundary = ⟨head.length + 1, true⟩) ∨
      run ∈ blanks.matches' ∧ boundary = ⟨0, false⟩ := by
  exact ⟨(Checked.trimmer?_run · run), fun _ => leftDecision_eq_allow_iff,
    fun _ => rightDecision_eq_allow_iff⟩

end Trimmer
end Mustache
