import Mustache.Proofs.Octets
import Mustache.Template.Layout

/-!
# Mustache.Proofs.BlankLine

Blank lines around a tag, said of the whole source. `lineHead` is what stands on a line before a
place, `lineTail?` the blank rest of a line behind it. A run beside the tag decides the same as
the whole source (`lineStart?_of_source`, `lineEnd?_of_source`), because what stands beyond the
run is a tag, whose delimiters are neither blank nor a line end.
-/

namespace Mustache
namespace Text

/-- What stands behind the last line feed of a text. -/
def lineHead (cs : List Char) : List Char :=
  (cs.reverse.takeWhile (· != '\n')).reverse

/-- The line end that a text begins with: a line feed, with or without a carriage return, or the
end of the text. -/
def lineBreak? : List Char → Option (List Char)
  | [] => some []
  | '\n' :: _ => some ['\n']
  | '\r' :: '\n' :: _ => some ['\r', '\n']
  | _ => none

/-- The spaces and tabs that a text begins with and the line end behind them. -/
def lineTail? (cs : List Char) : Option (List Char) :=
  (lineBreak? (cs.dropWhile isSpace)).map (cs.takeWhile isSpace ++ ·)

theorem lineHead_append {cs ds : List Char} (h : '\n' ∉ ds) :
    lineHead (cs ++ ds) = lineHead cs ++ ds := by
  have hd : ∀ c ∈ ds.reverse, (c != '\n') = true := by
    intro c hc
    rw [bne_iff_ne]
    rintro rfl
    exact h (List.mem_reverse.1 hc)
  rw [lineHead, List.reverse_append, List.takeWhile_append_of_pos hd, List.reverse_append,
    List.reverse_reverse, lineHead]

theorem lineHead_lineFeed (cs : List Char) : lineHead (cs ++ ['\n']) = [] := by
  simp [lineHead]

theorem span_append {spaces : List Char} (h : spaces.all isSpace = true) (cs : List Char)
    (hc : ∀ c ∈ cs.head?, isSpace c = false) :
    (spaces ++ cs).takeWhile isSpace = spaces ∧ (spaces ++ cs).dropWhile isSpace = cs := by
  rw [List.all_eq_true] at h
  rw [List.takeWhile_append_of_pos h, List.dropWhile_append_of_pos h]
  cases cs with
  | nil => simp
  | cons c cs =>
    have := hc c rfl
    simp [this]

/-- Every text is spaces and tabs, and then something else or nothing. -/
theorem exists_spaces (cs : List Char) :
    ∃ spaces rest, cs = spaces ++ rest ∧ spaces.all isSpace = true ∧
      ∀ c ∈ rest.head?, isSpace c = false := by
  refine ⟨cs.takeWhile isSpace, cs.dropWhile isSpace, List.takeWhile_append_dropWhile.symm,
    List.all_takeWhile, ?_⟩
  intro c hc
  have := List.head?_dropWhile_not isSpace cs
  rw [hc] at this
  simpa using this

theorem isSpace_of_isBlank {c : Char} (h : isBlank c = false) :
    isSpace c = false ∧ c ≠ '\n' ∧ c ≠ '\r' := by
  refine ⟨?_, ?_, ?_⟩
  · cases hs : isSpace c with
    | false => rfl
    | true => rcases isSpace_iff.1 hs with rfl | rfl <;> cases h
  · rintro rfl
    cases h
  · rintro rfl
    cases h

theorem exists_lastBreak {cs : List Char} (h : '\n' ∈ cs) :
    ∃ head tail, cs = head ++ '\n' :: tail ∧ '\n' ∉ tail := by
  obtain ⟨head, tail, hr, hh⟩ := List.eq_append_cons_of_mem (List.mem_reverse.2 h)
  refine ⟨tail.reverse, head.reverse, ?_, by simpa using hh⟩
  have := congrArg List.reverse hr
  simpa using this

theorem lineHead_of_not_mem {cs : List Char} (h : '\n' ∉ cs) : lineHead cs = cs :=
  @lineHead_append [] cs h

theorem lineHead_append_cons (cs ds : List Char) : lineHead (cs ++ '\n' :: ds) = lineHead ds := by
  by_cases hlf : '\n' ∈ ds
  · obtain ⟨head, tail, rfl, htail⟩ := exists_lastBreak hlf
    have hleft : cs ++ '\n' :: (head ++ '\n' :: tail) =
        (cs ++ '\n' :: head ++ ['\n']) ++ tail := by simp
    have hright : head ++ '\n' :: tail = (head ++ ['\n']) ++ tail := by simp
    rw [hleft, hright, lineHead_append htail, lineHead_append htail, lineHead_lineFeed,
      lineHead_lineFeed]
  · have hleft : cs ++ '\n' :: ds = (cs ++ ['\n']) ++ ds := by simp
    rw [hleft, lineHead_append hlf, lineHead_lineFeed, lineHead_of_not_mem hlf, List.nil_append]

theorem lineTail?_append {spaces : List Char} (h : spaces.all isSpace = true) (cs : List Char)
    (hc : ∀ c ∈ cs.head?, isSpace c = false) :
    lineTail? (spaces ++ cs) = (lineBreak? cs).map (spaces ++ ·) := by
  obtain ⟨htake, hdrop⟩ := span_append h cs hc
  rw [lineTail?, htake, hdrop]

theorem lineBreak?_of_ne {c : Char} {cs : List Char} (hlf : c ≠ '\n')
    (hcr : c = '\r' → cs.head? ≠ some '\n') : lineBreak? (c :: cs) = none := by
  unfold lineBreak?
  split
  · next h => cases h
  · next h =>
    cases h
    exact absurd rfl hlf
  · next h =>
    cases h
    exact absurd rfl (hcr rfl)
  · rfl

/-- A line end is one or two octets at the start of what is left. -/
theorem lineBreak?_cons {c : Char} {cs : List Char} :
    lineBreak? (c :: cs) = none ∧ c ≠ '\n' ∧ (c = '\r' → cs.head? ≠ some '\n') ∨
      c = '\n' ∧ lineBreak? (c :: cs) = some ['\n'] ∨
      (∃ rest, c = '\r' ∧ cs = '\n' :: rest) ∧ lineBreak? (c :: cs) = some ['\r', '\n'] := by
  by_cases hlf : c = '\n'
  · subst hlf
    exact .inr (.inl ⟨rfl, rfl⟩)
  · by_cases hcr : c = '\r' ∧ cs.head? = some '\n'
    · obtain ⟨rfl, hh⟩ := hcr
      obtain ⟨rest, rfl⟩ := List.head?_eq_some_iff.1 hh
      exact .inr (.inr ⟨⟨rest, rfl, rfl⟩, rfl⟩)
    · have h : c = '\r' → cs.head? ≠ some '\n' := fun hc hh => hcr ⟨hc, hh⟩
      exact .inl ⟨lineBreak?_of_ne hlf h, hlf, h⟩

theorem lineFeed_not_mem_of_all {cs : List Char} (h : cs.all isSpace = true) : '\n' ∉ cs := by
  intro hm
  have := List.all_eq_true.1 h _ hm
  cases this

end Text

namespace Run

theorem leftDecision_toOctets {spaces rest : List Char} (hs : spaces.all Text.isSpace = true)
    (hr : ∀ c ∈ rest.head?, Text.isSpace c = false) :
    (Trimmer.scan (Text.toOctets (spaces ++ rest))).leftDecision =
      match Text.lineBreak? rest with
      | some (_ :: ending) => .allow ⟨Text.byteSize spaces + Text.byteSize ending, true⟩
      | _ => .preserve := by
  obtain ⟨htake, hdrop⟩ := Text.span_toOctets (spaces ++ rest)
  obtain ⟨htake', hdrop'⟩ := Text.span_append hs rest hr
  rw [Trimmer.leftDecision_scan, Trimmer.firstBreak?, htake, hdrop, htake', hdrop',
    Text.length_toOctets]
  cases rest with
  | nil => rfl
  | cons c rest =>
    obtain ⟨octet, octets, hoct, _, hlf, hcr⟩ := Text.utf8EncodeChar_of_not_isSpace (hr c rfl)
    rw [Text.toOctets_cons, hoct]
    rcases @Text.lineBreak?_cons c rest with ⟨hb, h1, h2⟩ | ⟨rfl, hb⟩ | ⟨⟨rest, rfl, rfl⟩, hb⟩
    · rw [hb]
      by_cases h3 : c = '\r'
      · subst h3
        have hnil : octets = [] := (List.cons.inj hoct).2.symm
        cases rest with
        | nil => simp [hlf, hcr, hnil, Text.toOctets]
        | cons x rest =>
          obtain ⟨o, os, hx, hxa⟩ := Text.head_utf8EncodeChar x
          have hx1 : x ≠ '\n' := by simpa using h2 rfl
          have hxlf : ¬ o = 0x0A := fun h => hx1 ((hxa '\n' (by decide)).1 h)
          simp [hlf, hcr, hnil, Text.toOctets_cons, hx, hxlf]
      · simp [hlf, hcr, h1, h3]
    · rw [hb]
      simp [hlf, Text.byteSize]
    · have hnil : octets = [] := (List.cons.inj hoct).2.symm
      have hlfEncoded : String.utf8EncodeChar '\n' = [0x0A] := rfl
      have hsize : '\n'.utf8Size = 1 := rfl
      rw [hb]
      simp [hlf, hcr, hnil, Text.toOctets_cons, hlfEncoded, Text.byteSize, hsize]

theorem rightDecision_toOctets_append {head tail : List Char} (h : '\n' ∉ tail) :
    (Trimmer.scan (Text.toOctets (head ++ '\n' :: tail))).rightDecision =
      if tail.all Text.isSpace then .allow ⟨Text.byteSize head + 1, true⟩ else .preserve := by
  have hlf : 0x0A ∉ Text.toOctets tail := by rwa [Text.lineFeed_mem_toOctets]
  have hsplit : Text.toOctets (head ++ '\n' :: tail) =
      Text.toOctets head ++ 0x0A :: Text.toOctets tail := by
    rw [Text.toOctets_append, Text.toOctets_cons]
    rfl
  rw [hsplit, Trimmer.rightDecision_scan_append hlf, Text.all_isSpace_toOctets,
    Text.length_toOctets]

theorem rightDecision_toOctets {cs : List Char} (h : '\n' ∉ cs) :
    (Trimmer.scan (Text.toOctets cs)).rightDecision =
      if cs.all Text.isSpace then .allow ⟨0, false⟩ else .preserve := by
  have hlf : 0x0A ∉ Text.toOctets cs := by rwa [Text.lineFeed_mem_toOctets]
  rw [Trimmer.rightDecision_scan hlf, Text.all_isSpace_toOctets]

/-- Where a line stops being blank before a tag, the run before the tag knows: it holds the line
feed, or the source begins with it, or the tag before it stands on the same line. -/
theorem lineStart?_of_source {before run : List Char} (closes : Bool)
    (hb : ∀ c ∈ before.getLast?, Text.isBlank c = false) :
    (∃ kept, run = kept ++ Text.lineHead (before ++ run) ∧
        (Text.lineHead (before ++ run)).all Text.isSpace = true ∧
        lineStart? ⟨run, before.isEmpty, closes⟩ = some (Text.byteSize kept)) ∨
      ((Text.lineHead (before ++ run)).all Text.isSpace = false ∧
        lineStart? ⟨run, before.isEmpty, closes⟩ = none) := by
  by_cases hlf : '\n' ∈ run
  · obtain ⟨head, tail, rfl, htail⟩ := Text.exists_lastBreak hlf
    have hhead : Text.lineHead (before ++ (head ++ '\n' :: tail)) = tail := by
      rw [← List.append_assoc, Text.lineHead_append_cons, Text.lineHead_of_not_mem htail]
    have hdec := @rightDecision_toOctets_append head tail htail
    rw [hhead, lineStart?, trimmer]
    simp only [hdec]
    cases hall : tail.all Text.isSpace with
    | true =>
      refine .inl ⟨head ++ ['\n'], by simp, rfl, ?_⟩
      rw [Text.byteSize_append]
      rfl
    | false => exact .inr ⟨rfl, rfl⟩
  · rw [Text.lineHead_append hlf, lineStart?, trimmer]
    simp only [rightDecision_toOctets hlf]
    rcases List.eq_nil_or_concat before with rfl | ⟨front, c, rfl⟩
    · -- the run opens the source
      show (∃ kept, run = kept ++ run ∧ run.all _ = true ∧ _) ∨ (run.all _ = false ∧ _)
      cases hall : run.all Text.isSpace with
      | true => exact .inl ⟨[], rfl, rfl, rfl⟩
      | false => exact .inr ⟨rfl, rfl⟩
    · -- the last character of the tag before the run is on the line
      obtain ⟨hs, hn, _⟩ := Text.isSpace_of_isBlank (hb c (by simp))
      right
      refine ⟨?_, ?_⟩
      · have hmem : '\n' ∉ [c] := by simpa using Ne.symm hn
        rw [List.concat_eq_append, Text.lineHead_append hmem]
        simp [hs]
      · cases run.all Text.isSpace <;> simp

theorem lineEnd?_of_allow {run : Run} {boundary : Boundary}
    (h : run.trimmer.leftDecision = .allow boundary) :
    run.lineEnd? = some (boundary.index + 1) := by
  rw [lineEnd?, h]

theorem lineEnd?_of_spaces {run : Run} (h : run.text.all Text.isSpace = true)
    (hl : run.trimmer.leftDecision = .preserve) :
    run.lineEnd? = if run.closesSource then some (Text.byteSize run.text) else none := by
  have hdec := rightDecision_toOctets (Text.lineFeed_not_mem_of_all h)
  rw [lineEnd?, hl, trimmer, hdec, h]
  cases run.closesSource <;> rfl

theorem lineEnd?_of_content {run : Run} (h : run.text.all Text.isSpace = false)
    (hl : run.trimmer.leftDecision = .preserve) : run.lineEnd? = none := by
  rw [lineEnd?, hl, trimmer]
  by_cases hlf : '\n' ∈ run.text
  · obtain ⟨head, tail, hrun, htail⟩ := Text.exists_lastBreak hlf
    rw [hrun, rightDecision_toOctets_append htail]
    cases tail.all Text.isSpace <;> rfl
  · rw [rightDecision_toOctets hlf, h]
    rfl

/-- Where the line goes on behind a tag, the run behind the tag knows, for the same reasons. -/
theorem lineEnd?_of_source {run after : List Char} (opens : Bool)
    (ha : ∀ c ∈ after.head?, Text.isBlank c = false) :
    lineEnd? ⟨run, opens, after.isEmpty⟩ =
        (Text.lineTail? (run ++ after)).map Text.byteSize ∧
      ∀ tail ∈ Text.lineTail? (run ++ after), tail <+: run := by
  obtain ⟨spaces, rest, rfl, hs, hr⟩ := Text.exists_spaces run
  have hleft := leftDecision_toOctets hs hr
  have hra : ∀ c ∈ (rest ++ after).head?, Text.isSpace c = false := by
    intro c hc
    cases rest with
    | nil => exact (Text.isSpace_of_isBlank (ha c hc)).1
    | cons r rest => exact hr c hc
  have hafter : ∀ c ∈ after.head?, c ≠ '\n' ∧ c ≠ '\r' := by
    intro c hc
    exact (Text.isSpace_of_isBlank (ha c hc)).2
  rw [List.append_assoc, Text.lineTail?_append hs (rest ++ after) hra]
  cases rest with
  | nil =>
    have hall : (spaces ++ []).all Text.isSpace = true := by rwa [List.append_nil]
    rw [@lineEnd?_of_spaces ⟨spaces ++ [], opens, after.isEmpty⟩ hall hleft]
    cases after with
    | nil => simp [Text.lineBreak?]
    | cons a after =>
      obtain ⟨hlf, hcr⟩ := hafter a rfl
      rw [List.nil_append, Text.lineBreak?_of_ne hlf (fun h => absurd h hcr)]
      exact ⟨rfl, nofun⟩
  | cons c rest =>
    have hall : (spaces ++ c :: rest).all Text.isSpace = false := by
      simp [hr c rfl]
    rcases @Text.lineBreak?_cons c rest with ⟨hb, h1, h2⟩ | ⟨rfl, hb⟩ | ⟨⟨rest, rfl, rfl⟩, hb⟩
    · rw [hb] at hleft
      have hnext : c = '\r' → (rest ++ after).head? ≠ some '\n' := by
        intro hc
        cases rest with
        | nil =>
          intro ha'
          exact (hafter _ ha').1 rfl
        | cons x rest => exact h2 hc
      rw [@lineEnd?_of_content ⟨spaces ++ c :: rest, opens, after.isEmpty⟩ hall hleft,
        List.cons_append, Text.lineBreak?_of_ne h1 hnext]
      exact ⟨rfl, nofun⟩
    · rw [hb] at hleft
      rw [@lineEnd?_of_allow ⟨spaces ++ '\n' :: rest, opens, after.isEmpty⟩ _ hleft]
      simp [Text.lineBreak?, Text.byteSize_append, Text.byteSize]
      rfl
    · rw [hb] at hleft
      rw [@lineEnd?_of_allow ⟨spaces ++ '\r' :: '\n' :: rest, opens, after.isEmpty⟩ _ hleft]
      have hlf : '\n'.utf8Size = 1 := rfl
      have hcr : '\r'.utf8Size = 1 := rfl
      simp [Text.lineBreak?, Text.byteSize_append, Text.byteSize]
      omega

end Run
end Mustache
