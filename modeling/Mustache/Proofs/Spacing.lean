import Mustache.Text.Blank
import Mustache.Text.Search

/-!
# Mustache.Proofs.Spacing

Text with other white space in the place of its own. Where only white space changes, a pattern
without any is met in the same place, the words are the same, and trimming comes to the same text,
changed inside in the same way.
-/

namespace Mustache
namespace Text

/-- Puts some white space in the place of each white space character, and leaves all others as
they are. -/
structure Respaces (f : Char → List Char) : Prop where
  keeps : ∀ c, isBlank c = false → f c = [c]
  blanks : ∀ c, isBlank c = true → f c ≠ [] ∧ (f c).all isBlank = true

variable {f : Char → List Char} {cs ds pattern w : List Char}

/-! ## Blanks -/

theorem Respaces.eq_self (hf : Respaces f) (h : ∀ c ∈ cs, isBlank c = false) :
    cs.flatMap f = cs := by
  induction cs with
  | nil => rfl
  | cons c cs ih =>
    rw [List.forall_mem_cons] at h
    rw [List.flatMap_cons, hf.keeps c h.1, ih h.2]
    rfl

theorem Respaces.all_isBlank (hf : Respaces f) (cs : List Char) :
    (cs.flatMap f).all isBlank = cs.all isBlank := by
  induction cs with
  | nil => rfl
  | cons c cs ih =>
    rw [List.flatMap_cons, List.all_append, List.all_cons, ih]
    cases hblank : isBlank c with
    | true => rw [(hf.blanks c hblank).2]
    | false =>
      rw [hf.keeps c hblank, List.all_cons, hblank]
      rfl

theorem Respaces.ne_nil (hf : Respaces f) (c : Char) : f c ≠ [] := by
  cases hblank : isBlank c with
  | true => exact (hf.blanks c hblank).1
  | false =>
    rw [hf.keeps c hblank]
    exact List.cons_ne_nil c []

theorem Respaces.isEmpty (hf : Respaces f) (cs : List Char) :
    (cs.flatMap f).isEmpty = cs.isEmpty := by
  cases cs with
  | nil => rfl
  | cons c cs =>
    obtain ⟨b, bs, hb⟩ := List.exists_cons_of_ne_nil (hf.ne_nil c)
    rw [List.flatMap_cons, hb]
    rfl

/-- White space in front of other white space. -/
theorem Respaces.exists_cons_of_blank (hf : Respaces f) {c : Char} (hc : isBlank c = true)
    (cs : List Char) : ∃ b rest, isBlank b = true ∧ (c :: cs).flatMap f = b :: rest := by
  obtain ⟨hne, hall⟩ := hf.blanks c hc
  obtain ⟨b, bs, hb⟩ := List.exists_cons_of_ne_nil hne
  rw [hb, List.all_cons, Bool.and_eq_true] at hall
  refine ⟨b, bs ++ cs.flatMap f, hall.1, ?_⟩
  rw [List.flatMap_cons, hb, List.cons_append]

/-! ## Patterns -/

theorem cut?_blanks (hw : w.all isBlank = true) (hne : pattern ≠ [])
    (hp : ∀ c ∈ pattern, isBlank c = false) (cs : List Char) :
    cut? pattern (w ++ cs) = (cut? pattern cs).map fun found => (w ++ found.1, found.2) := by
  induction w with
  | nil => simp
  | cons b w ih =>
    rw [List.all_cons, Bool.and_eq_true] at hw
    obtain ⟨p, pattern, rfl⟩ := List.exists_cons_of_ne_nil hne
    have hpb : p ≠ b := by
      rintro rfl
      rw [(List.forall_mem_cons.1 hp).1] at hw
      exact Bool.false_ne_true hw.1
    rw [List.cons_append, cut?, if_neg (by simp [List.isPrefixOf, hpb]), ih hw.2]
    cases cut? (p :: pattern) cs <;> rfl

theorem Respaces.isPrefixOf (hf : Respaces f) (hp : ∀ c ∈ pattern, isBlank c = false)
    (cs : List Char) : pattern.isPrefixOf (cs.flatMap f) = pattern.isPrefixOf cs := by
  induction pattern generalizing cs with
  | nil => simp
  | cons p pattern ih =>
    rw [List.forall_mem_cons] at hp
    cases cs with
    | nil => rfl
    | cons c cs =>
      cases hblank : isBlank c with
      | true =>
        have hne {b : Char} (hb : isBlank b = true) : (p == b) = false := by
          refine beq_false_of_ne ?_
          rintro rfl
          rw [hp.1] at hb
          cases hb
        obtain ⟨b, rest, hb, hcs⟩ := hf.exists_cons_of_blank hblank cs
        rw [hcs, List.isPrefixOf_cons_cons, List.isPrefixOf_cons_cons, hne hb, hne hblank,
          Bool.false_and, Bool.false_and]
      | false =>
        rw [List.flatMap_cons, hf.keeps c hblank, List.singleton_append, List.isPrefixOf_cons_cons,
          List.isPrefixOf_cons_cons, ih hp.2]

/-- A pattern without white space is met where it was. -/
theorem Respaces.cut? (hf : Respaces f) (hne : pattern ≠ [])
    (hp : ∀ c ∈ pattern, isBlank c = false) (cs : List Char) :
    cut? pattern (cs.flatMap f) =
      (cut? pattern cs).map fun found => (found.1.flatMap f, found.2.flatMap f) := by
  induction cs with
  | nil => simp [Text.cut?, hne]
  | cons c cs ih =>
    cases hblank : isBlank c with
    | true =>
      have hone := @cut?_blanks pattern [c] (by simp [hblank]) hne hp cs
      rw [List.singleton_append] at hone
      rw [List.flatMap_cons, cut?_blanks (hf.blanks c hblank).2 hne hp, ih, hone]
      cases Text.cut? pattern cs <;> simp
    | false =>
      have hprefix := hf.isPrefixOf hp (c :: cs)
      rw [List.flatMap_cons, hf.keeps c hblank, List.singleton_append] at hprefix ⊢
      rw [Text.cut?, Text.cut?, hprefix]
      by_cases hpre : pattern.isPrefixOf (c :: cs) = true
      · obtain ⟨after, hafter⟩ := List.isPrefixOf_iff_prefix.1 hpre
        have hrespaced : c :: cs.flatMap f = pattern ++ after.flatMap f := by
          have := congrArg (List.flatMap f) hafter
          rw [List.flatMap_append, hf.eq_self hp, List.flatMap_cons, hf.keeps c hblank] at this
          exact this.symm
        rw [if_pos hpre, if_pos hpre, hrespaced, ← hafter, List.drop_left, List.drop_left]
        rfl
      · rw [if_neg hpre, if_neg hpre, ih]
        cases Text.cut? pattern cs with
        | none => rfl
        | some found => simp [hf.keeps c hblank]

/-! ## Words -/

theorem splitWhere_blanks (hw : w.all isBlank = true) (cs : List Char) :
    splitWhere isBlank (w ++ cs) = List.replicate w.length [] ++ splitWhere isBlank cs := by
  induction w with
  | nil => rfl
  | cons b w ih =>
    rw [List.all_cons, Bool.and_eq_true] at hw
    rw [List.cons_append, splitWhere, if_pos hw.1, ih hw.2]
    rfl

/-- The first piece is the same, and so are the words behind it. -/
theorem Respaces.exists_splitWhere (hf : Respaces f) (cs : List Char) :
    ∃ first rest rest', splitWhere isBlank cs = first :: rest ∧
      splitWhere isBlank (cs.flatMap f) = first :: rest' ∧
      rest'.filter (fun word => !word.isEmpty) = rest.filter (fun word => !word.isEmpty) := by
  induction cs with
  | nil => exact ⟨[], [], [], rfl, rfl, rfl⟩
  | cons c cs ih =>
    obtain ⟨first, rest, rest', hcs, hrespaced, hrest⟩ := ih
    rw [List.flatMap_cons]
    cases hblank : isBlank c with
    | true =>
      obtain ⟨hne, hall⟩ := hf.blanks c hblank
      obtain ⟨b, bs, hb⟩ := List.exists_cons_of_ne_nil hne
      rw [hb, List.all_cons, Bool.and_eq_true] at hall
      refine ⟨[], first :: rest, splitWhere isBlank (bs ++ cs.flatMap f), ?_, ?_, ?_⟩
      · rw [splitWhere, if_pos hblank, hcs]
      · rw [hb, List.cons_append, splitWhere, if_pos hall.1]
      · rw [splitWhere_blanks hall.2, hrespaced, List.filter_append,
          List.filter_eq_nil_iff.2 (by simp), List.nil_append, List.filter_cons, List.filter_cons,
          hrest]
    | false =>
      rw [hf.keeps c hblank, List.singleton_append]
      refine ⟨c :: first, rest, rest', ?_, ?_, hrest⟩
      · rw [splitWhere, hblank, hcs]
        rfl
      · rw [splitWhere, hblank, hrespaced]
        rfl

theorem Respaces.words (hf : Respaces f) (cs : List Char) : words (cs.flatMap f) = words cs := by
  obtain ⟨first, rest, rest', hcs, hrespaced, hrest⟩ := hf.exists_splitWhere cs
  rw [Text.words, Text.words, hcs, hrespaced, List.filter_cons, List.filter_cons, hrest]

/-! ## Trimming -/

/-- A text neither begins nor ends in white space. -/
def Bare (cs : List Char) : Prop :=
  (∀ c ∈ cs.head?, isBlank c = false) ∧ ∀ c ∈ cs.getLast?, isBlank c = false

theorem exists_trimEnd (cs : List Char) :
    ∃ back, cs = trimEnd cs ++ back ∧ back.all isBlank = true ∧
      ∀ c ∈ (trimEnd cs).getLast?, isBlank c = false := by
  refine ⟨(cs.reverse.takeWhile isBlank).reverse, ?_, ?_, ?_⟩
  · rw [trimEnd, ← List.reverse_append, List.takeWhile_append_dropWhile, List.reverse_reverse]
  · rw [List.all_reverse]
    exact List.all_takeWhile
  · intro c hc
    have := List.head?_dropWhile_not isBlank cs.reverse
    rw [trimEnd, List.getLast?_reverse] at hc
    rw [hc] at this
    simpa using this

/-- Trimming takes white space away on both sides, and all of it. -/
theorem exists_trim (cs : List Char) :
    ∃ front back, cs = front ++ trim cs ++ back ∧ front.all isBlank = true ∧
      back.all isBlank = true ∧ Bare (trim cs) := by
  obtain ⟨back, hcs, hback, hlast⟩ := exists_trimEnd (cs.dropWhile isBlank)
  refine ⟨cs.takeWhile isBlank, back, ?_, List.all_takeWhile, hback, ?_, hlast⟩
  · rw [trim, List.append_assoc, ← hcs, List.takeWhile_append_dropWhile]
  · intro c hc
    have hhead : (cs.dropWhile isBlank).head? = some c := by
      rw [hcs, List.head?_append, show (trimEnd _).head? = some c from hc]
      rfl
    have := List.head?_dropWhile_not isBlank cs
    rw [hhead] at this
    simpa using this

theorem dropWhile_blanks {front : List Char} (hfront : front.all isBlank = true)
    (hcs : ∀ c ∈ cs.head?, isBlank c = false) :
    (front ++ cs).dropWhile isBlank = cs := by
  rw [List.dropWhile_append_of_pos (List.all_eq_true.1 hfront)]
  cases cs with
  | nil => rfl
  | cons c cs => rw [List.dropWhile_cons_of_neg (by simp [hcs c rfl])]

theorem trim_eq {front back : List Char} (hfront : front.all isBlank = true)
    (hback : back.all isBlank = true) (hcs : Bare cs) : trim (front ++ cs ++ back) = cs := by
  by_cases hnil : cs = []
  · subst hnil
    have hall : (front ++ [] ++ back).all isBlank = true := by
      simp [hfront, hback]
    have hdrop := @dropWhile_blanks [] _ hall nofun
    rw [List.append_nil] at hdrop
    rw [trim, hdrop]
    rfl
  · have hhead : ∀ c ∈ (cs ++ back).head?, isBlank c = false := by
      cases cs with
      | nil => exact absurd rfl hnil
      | cons c cs => exact hcs.1
    have hlast : ∀ c ∈ cs.reverse.head?, isBlank c = false := by
      rw [List.head?_reverse]
      exact hcs.2
    rw [trim, List.append_assoc, dropWhile_blanks hfront hhead, trimEnd, List.reverse_append,
      dropWhile_blanks (by rwa [List.all_reverse]) hlast, List.reverse_reverse]

theorem trim_trim (cs : List Char) : trim (trim cs) = trim cs := by
  obtain ⟨_, _, _, _, _, hbare⟩ := exists_trim cs
  simpa using @trim_eq _ [] [] rfl rfl hbare

theorem Respaces.bare (hf : Respaces f) (hcs : Bare cs) : Bare (cs.flatMap f) := by
  obtain ⟨hhead, hlast⟩ := hcs
  constructor
  · cases cs with
    | nil => exact nofun
    | cons c cs =>
      rw [List.flatMap_cons, hf.keeps c (hhead c rfl)]
      exact hhead
  · rcases List.eq_nil_or_concat cs with rfl | ⟨front, c, rfl⟩
    · exact nofun
    · have hc : isBlank c = false := hlast c (by simp)
      rw [List.concat_eq_append, List.flatMap_append, List.flatMap_singleton, hf.keeps c hc]
      simpa using hc

theorem Respaces.trim (hf : Respaces f) (cs : List Char) :
    trim (cs.flatMap f) = (trim cs).flatMap f := by
  obtain ⟨front, back, hcs, hfront, hback, hbare⟩ := exists_trim cs
  have hrespaced : cs.flatMap f =
      front.flatMap f ++ (Text.trim cs).flatMap f ++ back.flatMap f := by
    rw [← List.flatMap_append, ← List.flatMap_append, ← hcs]
  rw [hrespaced]
  refine trim_eq ?_ ?_ (hf.bare hbare)
  · rwa [hf.all_isBlank]
  · rwa [hf.all_isBlank]

end Text
end Mustache
