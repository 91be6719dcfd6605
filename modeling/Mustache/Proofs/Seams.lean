import Mathlib.Data.List.Forall2
import Mustache.Proofs.StandAlone

/-!
# Mustache.Proofs.Seams

Sources put together line by line. Where the first source ends with a line, nothing can be taken
for a tag across the seam, and no line goes on over it. So the tags of the whole are those of the
parts, and the same ones stand alone.
-/

namespace Mustache

/-- Runs of text with an item between each two of them. -/
structure Strand (α : Type) where
  head : List Char
  rest : List (α × List Char)

namespace Strand

variable {α : Type}

/-- A run and what follows it, with `more` behind; the two runs at the seam become one. -/
def joinFrom (run : List Char) : List (α × List Char) → Strand α → Strand α
  | [], more => ⟨run ++ more.head, more.rest⟩
  | (item, next) :: rest, more =>
    ⟨run, (item, (joinFrom next rest more).head) :: (joinFrom next rest more).rest⟩

def join (strand more : Strand α) : Strand α :=
  joinFrom strand.head strand.rest more

/-- The last run ends with a line, or there is nothing at all and the source `opens` there. -/
def ClosedFrom (opens : Bool) (run : List Char) : List (α × List Char) → Prop
  | [] => run.getLast? = some '\n' ∨ opens = true ∧ run = []
  | (_, next) :: rest => ClosedFrom false next rest

def Closed (strand : Strand α) : Prop :=
  ClosedFrom true strand.head strand.rest

/-- Both have the same runs, and related items between them. -/
structure Alike {β : Type} (R : α → β → Prop) (strand : Strand α) (strand' : Strand β) : Prop where
  head : strand'.head = strand.head
  rest : List.Forall₂ (fun item item' => R item.1 item'.1 ∧ item'.2 = item.2) strand.rest
    strand'.rest

theorem joinFrom_nil (run : List Char) (rest : List (α × List Char)) :
    joinFrom run rest ⟨[], []⟩ = ⟨run, rest⟩ := by
  induction rest generalizing run with
  | nil => rw [joinFrom, List.append_nil]
  | cons entry rest ih => rw [joinFrom, ih]

theorem join_nil (strand : Strand α) : strand.join ⟨[], []⟩ = strand :=
  joinFrom_nil strand.head strand.rest

/-! ## Scripts -/

/-- The print under constant delimiters. -/
def text (d : Delimiters) (strand : Strand WrittenTag) : List Char :=
  Script.textFrom d strand.head strand.rest

def Legible (d : Delimiters) (strand : Strand WrittenTag) : Prop :=
  Script.LegibleFrom d strand.head strand.rest

/-- No tag changes the delimiters. -/
def Keeps (d : Delimiters) (rest : List (WrittenTag × List Char)) : Prop :=
  ∀ entry ∈ rest, entry.1.after = d

/-- The strand is as it was written: it can be read in one way only, and no tag in it changes the
delimiters. -/
structure Written (d : Delimiters) (strand : Strand WrittenTag) : Prop where
  legible : strand.Legible d
  keeps : Keeps d strand.rest

/-- The tags as they should be read when `before` stands in front. -/
def tags (d : Delimiters) (before : List Char) (strand : Strand WrittenTag) : Strand Tag :=
  ⟨strand.head, Script.tagsFrom d before strand.head strand.rest⟩

end Strand

theorem Text.exists_of_seam {pattern run cs before after : List Char} (hnone : ¬ pattern <:+: run)
    (hlast : ∀ c ∈ run.getLast?, c ∉ pattern) (h : run ++ cs = before ++ (pattern ++ after)) :
    ∃ front, before = run ++ front ∧ cs = front ++ (pattern ++ after) := by
  rcases List.append_eq_append_iff.1 h with ⟨front, hbefore, hcs⟩ | ⟨cut, hrun, hcut⟩
  · exact ⟨front, hbefore, hcs⟩
  · rcases List.append_eq_append_iff.1 hcut with ⟨kept, hkept, _⟩ | ⟨tail, hpattern, hcs⟩
    · exact absurd ⟨before, kept, by rw [hrun, hkept, List.append_assoc]⟩ hnone
    · rcases List.eq_nil_or_concat cut with rfl | ⟨front, c, rfl⟩
      · refine ⟨[], by simpa using hrun.symm, ?_⟩
        rw [hcs, hpattern]
        rfl
      · exact absurd (by simp [hpattern]) (hlast c (by simp [hrun]))

theorem Delimiters.lineFeed_not_mem_opening (d : Delimiters) : '\n' ∉ d.opening.toList := by
  intro h
  exact absurd (d.not_isBlank.1 _ h) (by decide)

namespace Script

variable {d : Delimiters} {run before : List Char} {rest : List (WrittenTag × List Char)}

/-- The opening delimiter is met in the second text only. -/
theorem legibleFrom_seam {more : Strand WrittenTag} (hrun : ¬ d.opening.toList <:+: run)
    (hlast : ∀ c ∈ run.getLast?, c = '\n') (hmore : more.Legible d) :
    LegibleFrom d (run ++ more.head) more.rest := by
  have hseam : ∀ c ∈ run.getLast?, c ∉ d.opening.toList := by
    intro c hc
    rw [hlast c hc]
    exact d.lineFeed_not_mem_opening
  obtain ⟨head, rest⟩ := more
  cases rest with
  | nil =>
    rintro ⟨before, after, h⟩
    rw [List.append_assoc] at h
    obtain ⟨front, _, hhead⟩ := Text.exists_of_seam hrun hseam h.symm
    exact hmore ⟨front, after, by rw [List.append_assoc, hhead]⟩
  | cons entry rest =>
    obtain ⟨hmet, hw, hrest⟩ := hmore
    refine ⟨?_, hw, hrest⟩
    intro before after h
    rw [List.append_assoc, List.append_assoc] at h
    obtain ⟨front, rfl, hhead⟩ := Text.exists_of_seam hrun hseam h
    have hle := hmet front after (by rw [hhead, List.append_assoc])
    show (run ++ head).length ≤ (run ++ front).length
    rw [List.length_append, List.length_append]
    exact Nat.add_le_add_left hle _

theorem legibleFrom_join {opens : Bool} {more : Strand WrittenTag} (hrun : LegibleFrom d run rest)
    (hkeeps : Strand.Keeps d rest) (hclosed : Strand.ClosedFrom opens run rest)
    (hmore : more.Legible d) : (Strand.joinFrom run rest more).Legible d := by
  induction rest generalizing opens run with
  | nil =>
    refine legibleFrom_seam hrun ?_ hmore
    intro c hc
    rcases hclosed with hlast | ⟨_, rfl⟩
    · rw [hlast] at hc
      exact (Option.some.inj hc).symm
    · cases hc
  | cons entry rest ih =>
    obtain ⟨hmet, hw, hrest⟩ := hrun
    obtain ⟨hafter, hkeeps⟩ := List.forall_mem_cons.1 hkeeps
    refine ⟨hmet, hw, ?_⟩
    rw [hafter] at hrest ⊢
    exact ih hrest hkeeps hclosed

theorem keeps_join {more : Strand WrittenTag} :
    Strand.Keeps d (Strand.joinFrom run rest more).rest ↔
      Strand.Keeps d rest ∧ Strand.Keeps d more.rest := by
  induction rest generalizing run with
  | nil =>
    constructor
    · intro h
      exact ⟨nofun, h⟩
    · intro h
      exact h.2
  | cons entry rest ih =>
    simp only [Strand.Keeps, Strand.joinFrom, List.forall_mem_cons] at ih ⊢
    rw [ih, and_assoc]

theorem eq_nil_of_behind (h : behind d rest = []) : rest = [] := by
  have hempty := isEmpty_behind d rest
  rw [h] at hempty
  exact List.isEmpty_iff.1 hempty.symm

end Script

namespace Strand.Written

variable {d : Delimiters} {strand more : Strand WrittenTag}

theorem join (hstrand : strand.Written d) (hclosed : strand.Closed) (hmore : more.Written d) :
    (strand.join more).Written d :=
  ⟨Script.legibleFrom_join hstrand.legible hstrand.keeps hclosed hmore.legible,
    Script.keeps_join.2 ⟨hstrand.keeps, hmore.keeps⟩⟩

end Strand.Written

end Mustache
