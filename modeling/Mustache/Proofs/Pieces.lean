import Mustache.Text.Blank

/-!
# Mustache.Proofs.Pieces

Texts cut at separators. No piece holds a separator, and the pieces with separators between them
are the text again; there are no other pieces of that kind (`Text.splitWhere_eq_iff`), and the
separators say how many there are and how many of them are empty.
-/

namespace Mustache
namespace Text

variable {p : Char → Bool}

theorem splitWhere_ne_nil (p : Char → Bool) (cs : List Char) : splitWhere p cs ≠ [] := by
  rw [splitWhere_eq_splitOnP]
  exact List.splitOnP_ne_nil p cs

/-- No piece holds a separator. -/
theorem not_of_mem_splitWhere {piece cs : List Char} (h : piece ∈ splitWhere p cs) :
    ∀ c ∈ piece, p c = false := by
  induction cs generalizing piece with
  | nil => simp_all [splitWhere]
  | cons c cs ih =>
    unfold splitWhere at h
    split at h
    · obtain rfl | h := List.mem_cons.1 h
      · simp
      · exact ih h
    · next hc =>
      split at h
      · simp_all
      · next first pieces hpieces =>
        rw [hpieces] at ih
        obtain rfl | h := List.mem_cons.1 h
        · intro x hx
          obtain rfl | hx := List.mem_cons.1 hx
          · exact Bool.eq_false_iff.2 hc
          · exact ih List.mem_cons_self x hx
        · exact ih (List.mem_cons_of_mem _ h)

/-- Text without separators goes on with the last piece. -/
theorem exists_splitWhere_append {cs ds : List Char} (hds : ∀ c ∈ ds, p c = false) :
    ∃ front last, splitWhere p cs = front ++ [last] ∧
      splitWhere p (cs ++ ds) = front ++ [last ++ ds] := by
  induction cs with
  | nil =>
    refine ⟨[], [], rfl, ?_⟩
    rw [splitWhere_eq_splitOnP]
    exact List.splitOnP_eq_singleton hds
  | cons c cs ih =>
    obtain ⟨front, last, hcs, happend⟩ := ih
    simp only [List.cons_append, splitWhere, hcs, happend]
    split
    · exact ⟨[] :: front, last, rfl, rfl⟩
    · cases front with
      | nil => exact ⟨[], c :: last, rfl, rfl⟩
      | cons first front => exact ⟨(c :: first) :: front, last, rfl, rfl⟩

theorem splitWhere_eq_splitOn (sep : Char) (cs : List Char) :
    splitWhere (· == sep) cs = cs.splitOn sep := by
  rw [splitWhere_eq_splitOnP, List.splitOn_eq_splitOnP]

/-- The pieces at a separator are the only ones that hold none and give the text when they are
joined with it. -/
theorem splitWhere_eq_iff {sep : Char} {cs : List Char} {pieces : List (List Char)} :
    splitWhere (· == sep) cs = pieces ↔
      pieces ≠ [] ∧ (∀ piece ∈ pieces, sep ∉ piece) ∧ [sep].intercalate pieces = cs := by
  constructor
  · rintro rfl
    refine ⟨splitWhere_ne_nil _ cs, ?_, ?_⟩
    · intro piece hpiece hmem
      simpa using not_of_mem_splitWhere hpiece sep hmem
    · rw [splitWhere_eq_splitOn, List.intercalate_splitOn]
  · rintro ⟨hfilled, hpieces, rfl⟩
    rw [splitWhere_eq_splitOn, List.splitOn_intercalate sep hpieces hfilled]

theorem length_splitWhere (sep : Char) (cs : List Char) :
    (splitWhere (· == sep) cs).length = cs.count sep + 1 := by
  induction cs with
  | nil => rfl
  | cons c cs ih =>
    rw [splitWhere, List.count_cons]
    by_cases hc : (c == sep) = true
    · rw [if_pos hc, if_pos hc, List.length_cons, ih]
    · rw [if_neg hc, if_neg hc, Nat.add_zero, ← ih]
      cases hpieces : splitWhere (· == sep) cs with
      | nil => exact absurd hpieces (splitWhere_ne_nil _ cs)
      | cons piece pieces => rfl

/-- Behind a separator every empty piece lies between two neighbouring separators, if another one
is put at the end; behind any other character the first piece is not empty. -/
theorem count_nil_splitWhere (sep c : Char) (cs : List Char) :
    ((c :: cs).zip (cs ++ [sep])).count (sep, sep) =
      if c = sep then (splitWhere (· == sep) cs).count []
      else (splitWhere (· == sep) cs).tail.count [] := by
  induction cs generalizing c with
  | nil =>
    by_cases hc : c = sep
    · subst hc
      simp [splitWhere]
    · simp [splitWhere, hc]
  | cons d cs ih =>
    rw [List.cons_append, List.zip_cons_cons, List.count_cons, ih, splitWhere]
    by_cases hd : d = sep
    · subst hd
      by_cases hc : c = d
      · simp [hc]
      · simp [hc]
    · cases hpieces : splitWhere (· == sep) cs with
      | nil => exact absurd hpieces (splitWhere_ne_nil _ cs)
      | cons piece pieces => simp [hd]

end Text
end Mustache
