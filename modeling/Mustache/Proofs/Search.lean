import Mustache.Text.Search

/-!
# Mustache.Proofs.Search

First occurrences of a pattern, said without the search: `MetFirstAfter pattern text` holds when
`pattern`, put behind `text`, is met there and nowhere sooner. `cut?_eq_some_iff` and
`cut?_eq_none_iff` say that a cut is made exactly there, and that none is made exactly when there
is no occurrence.
-/

namespace Mustache
namespace Text

/-- Every occurrence of `pattern` in `text ++ pattern` is the one at the end. -/
def MetFirstAfter (pattern text : List Char) : Prop :=
  ∀ before after, text ++ pattern = before ++ pattern ++ after → text.length ≤ before.length

theorem metFirstAfter_nil (pattern : List Char) : MetFirstAfter pattern [] := by
  intro before after _
  exact Nat.zero_le _

/-- A character more in front: the pattern may not begin with it either. -/
theorem metFirstAfter_cons_iff {pattern text : List Char} {c : Char} :
    MetFirstAfter pattern (c :: text) ↔
      ¬ pattern <+: c :: (text ++ pattern) ∧ MetFirstAfter pattern text := by
  constructor
  · intro h
    refine ⟨?_, ?_⟩
    · rintro ⟨after, ha⟩
      have := h [] after (by rw [List.nil_append, ha]; rfl)
      simp at this
    · intro before after heq
      have := h (c :: before) after (by simp only [List.cons_append, heq])
      simpa using this
  · rintro ⟨hc, h⟩ before after heq
    cases before with
    | nil =>
      exact absurd ⟨after, by rw [List.nil_append] at heq; rw [← heq]; rfl⟩ hc
    | cons b before =>
      simp only [List.cons_append, List.cons.injEq] at heq
      have := h before after heq.2
      simpa using this

/-- What follows the pattern does not matter for where it is met first. -/
theorem isPrefixOf_append_iff {pattern text after : List Char} :
    pattern <+: text ++ pattern ++ after ↔ pattern <+: text ++ pattern := by
  constructor
  · intro h
    refine List.prefix_of_prefix_length_le h (List.prefix_append _ _) ?_
    simp
  · intro h
    exact h.trans (List.prefix_append _ _)

theorem cut?_append {pattern before : List Char} (hp : pattern ≠ []) (after : List Char)
    (h : MetFirstAfter pattern before) :
    cut? pattern (before ++ pattern ++ after) = some (before, after) := by
  induction before with
  | nil =>
    obtain ⟨c, cs, rfl⟩ := List.exists_cons_of_ne_nil hp
    have hpre : (c :: cs).isPrefixOf (c :: cs ++ after) = true :=
      List.isPrefixOf_iff_prefix.2 (List.prefix_append _ _)
    rw [List.nil_append, List.cons_append, cut?, ← List.cons_append, if_pos hpre, List.drop_left]
  | cons c before ih =>
    obtain ⟨hc, hb⟩ := metFirstAfter_cons_iff.1 h
    have hpre : ¬ pattern.isPrefixOf (c :: (before ++ pattern ++ after)) = true := by
      rw [List.isPrefixOf_iff_prefix]
      intro hpre
      exact hc ((@isPrefixOf_append_iff pattern (c :: before) after).1 hpre)
    rw [List.cons_append, List.cons_append, cut?, if_neg hpre, ih hb]

theorem metFirstAfter_of_cut? {pattern cs before after : List Char}
    (h : cut? pattern cs = some (before, after)) : MetFirstAfter pattern before := by
  induction cs generalizing before with
  | nil =>
    unfold cut? at h
    split at h
    · cases h
      exact metFirstAfter_nil pattern
    · cases h
  | cons c cs ih =>
    unfold cut? at h
    split at h
    · cases h
      exact metFirstAfter_nil pattern
    · next hpre =>
      split at h
      · cases h
      · next hc =>
        cases h
        refine metFirstAfter_cons_iff.2 ⟨?_, ih hc⟩
        intro hp
        apply hpre
        rw [List.isPrefixOf_iff_prefix, eq_of_cut? hc]
        exact (@isPrefixOf_append_iff pattern (c :: _) _).2 hp

/-- A cut is made where the pattern is met first. -/
theorem cut?_eq_some_iff {pattern cs before after : List Char} (hp : pattern ≠ []) :
    cut? pattern cs = some (before, after) ↔
      cs = before ++ pattern ++ after ∧ MetFirstAfter pattern before := by
  constructor
  · intro h
    exact ⟨eq_of_cut? h, metFirstAfter_of_cut? h⟩
  · rintro ⟨rfl, h⟩
    exact cut?_append hp after h

/-- No cut is made exactly where the pattern does not occur. -/
theorem cut?_eq_none_iff {pattern cs : List Char} (hp : pattern ≠ []) :
    cut? pattern cs = none ↔ ¬ pattern <:+: cs := by
  induction cs with
  | nil => simp [cut?, hp]
  | cons c cs ih =>
    rw [List.infix_cons_iff, not_or, ← ih, ← List.isPrefixOf_iff_prefix, cut?]
    split
    · next hpre => simp [hpre]
    · next hpre =>
      split
      · next hc => simp [hpre, hc]
      · next hc => simp [hc]

/-- The search itself tells whether the pattern is met first behind a text. -/
theorem metFirstAfter_iff_cut? {pattern text : List Char} (hp : pattern ≠ []) :
    MetFirstAfter pattern text ↔ cut? pattern (text ++ pattern) = some (text, []) := by
  rw [cut?_eq_some_iff hp]
  simp

/-- A text behind which the pattern is met first does not hold the pattern. -/
theorem not_infix_of_metFirstAfter {pattern text : List Char} (hp : pattern ≠ [])
    (h : MetFirstAfter pattern text) : ¬ pattern <:+: text := by
  rintro ⟨before, after, rfl⟩
  have := h before (after ++ pattern) (by simp)
  have hl := List.length_pos_iff.2 hp
  simp only [List.length_append] at this
  omega

end Text
end Mustache
