import Mustache.Data

/-!
# Mustache.Proofs.Markup

Text without markup. In escaped text no angle bracket and no quote is left, and every ampersand
begins an entity; whatever a value is, what is written of it with HTML escaping is of that kind.
-/

namespace Mustache

namespace Escape

/-- The characters that mean something to HTML. -/
def markup : List Char := ['&', '<', '>', '"', '\'']

/-- What stands for them in escaped text. -/
def entities : List String := ["&amp;", "&lt;", "&gt;", "&quot;", "&#39;"]

theorem not_mem_markup {c : Char} (h : entity? c = none) : c ∉ markup := by
  unfold entity? at h
  simp only [markup, List.mem_cons, List.not_mem_nil, or_false, not_or]
  grind

theorem mem_entities {c : Char} {entity : String} (h : entity? c = some entity) :
    entity ∈ entities := by
  unfold entity? at h
  simp only [entities, List.mem_cons, List.not_mem_nil, or_false]
  grind

end Escape

/-! ## Escaped text -/

/-- Text that HTML takes for nothing else: no angle bracket and no quote stands in it, and every
ampersand begins an entity. -/
structure Text.Escaped (text : List Char) : Prop where
  bare : ∀ c ∈ ['<', '>', '"', '\''], c ∉ text
  entity : ∀ before after, text = before ++ '&' :: after →
    ∃ entity ∈ Escape.entities, entity.toList <+: '&' :: after

namespace Text

/-- Text without any markup character. -/
def isPlain (text : List Char) : Bool :=
  text.all fun c => c ∉ Escape.markup

theorem isPlain_iff {text : List Char} : isPlain text = true ↔ ∀ c ∈ text, c ∉ Escape.markup := by
  simp [isPlain]

theorem Escaped.of_isPlain {text : List Char} (h : isPlain text = true) : Escaped text where
  bare c hc := by
    intro hmem
    exact isPlain_iff.1 h c hmem (List.mem_cons_of_mem _ hc)
  entity before after htext := by
    have hmem : '&' ∈ text := by simp [htext]
    exact absurd (by decide) (isPlain_iff.1 h '&' hmem)

theorem Escaped.append {text text' : List Char} (h : Escaped text) (h' : Escaped text') :
    Escaped (text ++ text') where
  bare c hc := by
    rw [List.mem_append, not_or]
    exact ⟨h.bare c hc, h'.bare c hc⟩
  entity before after htext := by
    obtain ⟨front, rfl, htail⟩ | ⟨front, hfront, htail⟩ := List.append_eq_append_iff.1 htext
    · exact h'.entity front after htail
    · cases front with
      | nil => exact h'.entity [] after htail.symm
      | cons c front =>
        -- the ampersand is in the first text, and so is its entity
        rw [List.cons_append, List.cons.injEq] at htail
        obtain ⟨rfl, rfl⟩ := htail
        obtain ⟨entity, hentity, hprefix⟩ := h.entity before front hfront
        exact ⟨entity, hentity, hprefix.trans (List.prefix_append _ _)⟩

theorem Escaped.join {chunks : List String} (h : ∀ chunk ∈ chunks, Escaped chunk.toList) :
    Escaped (String.join chunks).toList := by
  induction chunks with
  | nil => exact .of_isPlain rfl
  | cons chunk chunks ih =>
    rw [List.forall_mem_cons] at h
    rw [String.join_cons, String.toList_append]
    exact h.1.append (ih h.2)

/-- An entity has its only markup character in front. -/
theorem Escaped.of_mem_entities {entity : String} (h : entity ∈ Escape.entities) :
    Escaped entity.toList := by
  have hall : ∀ entity ∈ Escape.entities,
      entity.toList = '&' :: entity.toList.tail ∧ isPlain entity.toList.tail = true := by
    decide
  obtain ⟨hhead, hplain⟩ := hall entity h
  generalize htail : entity.toList.tail = rest at hhead hplain
  have hrest := Escaped.of_isPlain hplain
  refine ⟨?_, ?_⟩
  · intro c hc
    rw [hhead, List.mem_cons, not_or]
    exact ⟨by rintro rfl; revert hc; decide, hrest.bare c hc⟩
  · intro before after htext
    rw [hhead] at htext
    cases before with
    | nil =>
      rw [List.nil_append] at htext
      exact ⟨entity, h, [], by rw [hhead, htext, List.append_nil]⟩
    | cons c before =>
      rw [List.cons_append, List.cons.injEq] at htext
      exact hrest.entity before after htext.2

end Text

/-! ## What is written -/

theorem Escape.htmlChunks_escaped {plain : String} (hplain : Text.isPlain plain.toList = true)
    (cs : List Char) : ∀ chunk ∈ htmlChunks plain cs, Text.Escaped chunk.toList := by
  have hplainChunk {plain : String} (hplain : Text.isPlain plain.toList = true) :
      ∀ chunk ∈ plainChunk plain, Text.Escaped chunk.toList := by
    unfold plainChunk
    split
    · rintro chunk ⟨⟩
    · intro chunk hchunk
      rw [List.mem_singleton.1 hchunk]
      exact .of_isPlain hplain
  fun_induction htmlChunks plain cs with
  | case1 plain => exact hplainChunk hplain
  | case2 plain c cs entity hentity ih =>
    intro chunk hchunk
    rw [List.mem_append, List.mem_cons] at hchunk
    obtain hchunk | rfl | hchunk := hchunk
    · exact hplainChunk hplain chunk hchunk
    · exact .of_mem_entities (mem_entities hentity)
    · exact ih rfl chunk hchunk
  | case3 plain c cs hentity ih =>
    refine ih ?_
    rw [Text.isPlain_iff] at hplain ⊢
    intro d hd
    rw [String.toList_push, List.mem_append, List.mem_singleton] at hd
    obtain hd | rfl := hd
    · exact hplain d hd
    · exact not_mem_markup hentity

theorem Escape.chunks_escaped (text : String) :
    ∀ chunk ∈ Escape.html.chunks text, Text.Escaped chunk.toList :=
  htmlChunks_escaped rfl text.toList

theorem Data.chunks_escaped {σ : Type} (data : Data σ) :
    ∀ chunk ∈ data.chunks .html, Text.Escaped chunk.toList := by
  fun_induction data.chunks .html with
  | case1 | case2 | case3 => exact Escape.chunks_escaped _
  | case4 flag =>
    intro chunk hchunk
    rw [List.mem_singleton.1 hchunk]
    cases flag <;> exact .of_isPlain rfl
  | case5 target ih => exact ih
  | case6 value ih => exact ih
  | case7 | case8 | case9 | case10 | case11 => rintro chunk ⟨⟩

/-- A number is written in digits. -/
theorem Text.isPlain_toString (n : Nat) : isPlain (toString n).toList = true := by
  rw [Nat.toString_eq_ofList_toDigits, String.toList_ofList, isPlain_iff]
  intro c hc hmarkup
  have hdigit := Nat.isDigit_of_mem_toDigits (by decide) (by decide) hc
  have hno : ∀ c ∈ Escape.markup, c.isDigit = false := by simp [Escape.markup]
  rw [hno c hmarkup] at hdigit
  cases hdigit

theorem Value.chunks_escaped {σ : Type} (value : Value σ) :
    ∀ chunk ∈ value.chunks .html, Text.Escaped chunk.toList := by
  cases value with
  | host data => exact data.chunks_escaped
  | count n =>
    intro chunk hchunk
    rw [List.mem_singleton.1 hchunk]
    exact .of_isPlain (Text.isPlain_toString n)

end Mustache
