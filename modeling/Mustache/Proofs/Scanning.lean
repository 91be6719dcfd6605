import Mustache.Proofs.Script
import Mustache.Template.Parse

/-!
# Mustache.Proofs.Scanning

Scanning is the inverse of printing.

* `read_body` and `exists_written`: a tag is read where a legible tag is printed, and only there.
* `ofSource_textFrom`: the print of a legible script is scanned into the runs and tags of the
  script.
* `exists_script`: every source that is scanned at all is the print of a legible script.
* `coversFrom_tagsFrom`: the runs and tags of a script lie side by side in its print.
-/

namespace Mustache

theorem Delimiters.ofPair_eq_ok_iff {opening closing : String} {d : Delimiters} :
    Delimiters.ofPair opening closing = .ok d ↔ d.opening = opening ∧ d.closing = closing := by
  unfold ofPair
  constructor
  · intro h
    split at h
    · cases h
      exact ⟨rfl, rfl⟩
    · cases h
  · rintro ⟨rfl, rfl⟩
    split
    · rfl
    · next fault hf =>
      rw [d.usable] at hf
      cases hf

namespace Tag

/-! ## Reading a tag -/

theorem newDelimiters_eq_ok_iff {content : List Char} {d : Delimiters} :
    newDelimiters content = .ok d ↔
      Text.words content = [d.opening.toList, d.closing.toList] := by
  unfold newDelimiters
  constructor
  · intro h
    split at h
    · next opening closing hw =>
      simp only at h
      split at h
      · next d' hd =>
        cases h
        obtain ⟨ho, hc⟩ := Delimiters.ofPair_eq_ok_iff.1 hd
        rw [hw, ho, hc, String.toList_ofList, String.toList_ofList]
      · cases h
    · cases h
  · intro h
    rw [h]
    have hd : Delimiters.ofPair d.opening d.closing = .ok d :=
      Delimiters.ofPair_eq_ok_iff.2 ⟨rfl, rfl⟩
    simp only [String.ofList_toList, hd]

/-- The delimiters behind a tag are those of its form and content. -/
theorem delimitersAfter_eq_ok_iff {d : Delimiters} {w : WrittenTag} :
    delimitersAfter d w.form.head.kind w.content = .ok w.after ↔ w.Fits d := by
  obtain ⟨form, content, after⟩ := w
  have named : (if (Text.trim content).isEmpty then .error .emptyName else .ok d :
      Except ParseFault Delimiters) = .ok after ↔ Text.trim content ≠ [] ∧ after = d := by
    split
    · next h => simp [List.isEmpty_iff.1 h]
    · next h =>
      rw [List.isEmpty_iff] at h
      simp [h, eq_comm]
  cases form with
  | equals => exact newDelimiters_eq_ok_iff
  | bang => simp [delimitersAfter, TagForm.head, WrittenTag.Fits, eq_comm]
  | _ => exact named

/-- The sign tells the form of a tag, unless a plain tag begins with one. -/
theorem ofBody_head {form : TagForm} {content : List Char} (tail : List Char)
    (hs : form = .plain → ∀ c ∈ content.head?, c ∉ TagForm.signs)
    (hc : form = .plain → content ≠ []) :
    Head.ofBody (form.head.sign ++ content ++ tail) = form.head := by
  cases form with
  | plain =>
    obtain ⟨c, cs, rfl⟩ := List.exists_cons_of_ne_nil (hc rfl)
    have h : c ∉ TagForm.signs := hs rfl c rfl
    simp only [TagForm.signs, List.mem_cons, List.not_mem_nil, or_false, not_or] at h
    simp [TagForm.head, Head.ofBody, TagKind.ofSign?, h]
  | _ => rfl

/-- Every body begins like a tag of some form; a plain one does not begin with a sign. -/
theorem exists_form (body : List Char) :
    ∃ form : TagForm, Head.ofBody body = form.head ∧
      (form = .plain → ∀ c ∈ body.head?, c ∉ TagForm.signs) := by
  cases body with
  | nil => exact ⟨.plain, rfl, by simp⟩
  | cons c cs =>
    by_cases hs : c ∈ TagForm.signs
    · simp only [TagForm.signs, List.mem_cons, List.not_mem_nil, or_false] at hs
      rcases hs with rfl | rfl | rfl | rfl | rfl | rfl | rfl | rfl
      · exact ⟨.braced, rfl, nofun⟩
      · exact ⟨.equals, rfl, nofun⟩
      · exact ⟨.ampersand, rfl, nofun⟩
      · exact ⟨.hash, rfl, nofun⟩
      · exact ⟨.caret, rfl, nofun⟩
      · exact ⟨.slash, rfl, nofun⟩
      · exact ⟨.bang, rfl, nofun⟩
      · exact ⟨.angle, rfl, nofun⟩
    · refine ⟨.plain, ?_, fun _ x hx => ?_⟩
      · simp only [TagForm.signs, List.mem_cons, List.not_mem_nil, or_false, not_or] at hs
        simp [TagForm.head, Head.ofBody, TagKind.ofSign?, hs]
      · cases hx
        exact hs

theorem content_ne_nil {d : Delimiters} {w : WrittenTag} (hf : w.Fits d)
    (hp : w.form = .plain) : w.content ≠ [] := by
  rintro hc
  simp only [WrittenTag.Fits, hp, hc] at hf
  exact hf.1 rfl

/-- A legible tag is read where it is printed. -/
theorem read_body {d : Delimiters} {w : WrittenTag} (hw : w.Legible d) (place : Position)
    (tail : List Char) :
    read d place (w.body d ++ tail) =
      .ok (⟨w.form.head.kind, String.ofList (Text.trim w.content),
        .between place (place.after (w.text d)), w.after⟩, place.after (w.text d), tail) := by
  have hh : Head.ofBody (w.body d ++ tail) = w.form.head := by
    have := ofBody_head (w.terminator d ++ tail) hw.unsigned (content_ne_nil hw.fits)
    simpa only [WrittenTag.body, List.append_assoc] using this
  have hdrop : (w.body d ++ tail).drop w.form.head.sign.length =
      w.content ++ w.terminator d ++ tail := by
    simp [WrittenTag.body]
  have hcut : Text.cut? (w.form.head.mark ++ d.closing.toList)
      (w.content ++ w.terminator d ++ tail) = some (w.content, tail) :=
    Text.cut?_append (w.terminator_ne_nil d) tail hw.ends
  have htext : d.opening.toList ++ w.form.head.sign ++ w.content ++
      (w.form.head.mark ++ d.closing.toList) = w.text d := by
    simp [WrittenTag.text, WrittenTag.body, WrittenTag.terminator]
  unfold read
  simp only [hh, hdrop, hcut, delimitersAfter_eq_ok_iff.2 hw.fits, htext]

/-- Whatever is read as a tag is the print of a legible tag. -/
theorem exists_written {d : Delimiters} {place past : Position} {body tail : List Char}
    {tag : Tag} (h : read d place body = .ok (tag, past, tail)) :
    ∃ w : WrittenTag, w.Legible d ∧ body = w.body d ++ tail ∧ past = place.after (w.text d) ∧
      tag = ⟨w.form.head.kind, String.ofList (Text.trim w.content), .between place past,
        w.after⟩ := by
  obtain ⟨form, hform, hsigns⟩ := exists_form body
  have hbody := Head.sign_append_drop body
  unfold read at h
  simp only [hform] at h hbody
  split at h
  · cases h
  · next content rest hc =>
    split at h
    · cases h
    · next after ha =>
      cases h
      let w : WrittenTag := ⟨form, content, after⟩
      obtain ⟨hrest, hends⟩ := (Text.cut?_eq_some_iff (w.terminator_ne_nil d)).1 hc
      rw [hrest] at hbody
      refine ⟨w, ⟨hends, ?_, delimitersAfter_eq_ok_iff.1 ha⟩, ?_, ?_, ?_⟩
      · intro hp c hcc
        refine hsigns hp c ?_
        obtain ⟨cs, hcs⟩ := List.head?_eq_some_iff.1 hcc
        rw [← hbody, show form = .plain from hp, show content = c :: cs from hcs]
        rfl
      · rw [← hbody]
        simp [w, WrittenTag.body, WrittenTag.terminator]
      · simp [w, WrittenTag.text, WrittenTag.body, WrittenTag.terminator]
      · simp [w]

end Tag

/-! ## Scanning a source -/

/-- The extent between the places around a text. -/
theorem Span.between_after (before text : List Char) :
    Span.between (Position.start.after before) (Position.start.after (before ++ text)) =
      .ofText before text := by
  simp only [Span.between, Span.ofText, Position.offset_after]
  simp [Position.start]

namespace Scan

theorem ofSource_of_cut?_eq_none {d : Delimiters} {source : List Char} (place : Position)
    (h : Text.cut? d.opening.toList source = none) :
    ofSource d place source = .ok ⟨source, []⟩ := by
  rw [ofSource]
  split
  · rfl
  · next hc =>
    rw [h] at hc
    cases hc

theorem ofSource_of_read {d : Delimiters} {place past : Position}
    {source run body tail : List Char} {tag : Tag}
    (hc : Text.cut? d.opening.toList source = some (run, body))
    (ht : Tag.read d (place.after run) body = .ok (tag, past, tail)) :
    ofSource d place source =
      match ofSource tag.delimiters past tail with
      | .error fault => .error fault
      | .ok scan => .ok ⟨run, (tag, scan.head) :: scan.rest⟩ := by
  rw [ofSource]
  split
  · next hc' =>
    rw [hc] at hc'
    cases hc'
  · next hc' =>
    rw [hc] at hc'
    cases hc'
    simp only
    split
    · next ht' =>
      rw [ht] at ht'
      cases ht'
    · next ht' =>
      rw [ht] at ht'
      cases ht'
      rfl

/-- The print of a legible script is scanned into its runs and tags, wherever it stands. -/
theorem ofSource_textFrom {d : Delimiters} {run : List Char}
    {rest : List (WrittenTag × List Char)} (before : List Char)
    (h : Script.LegibleFrom d run rest) :
    ofSource d (Position.start.after before) (Script.textFrom d run rest) =
      .ok ⟨run, Script.tagsFrom d before run rest⟩ := by
  induction rest generalizing d before run with
  | nil =>
    exact ofSource_of_cut?_eq_none _ ((Text.cut?_eq_none_iff d.opening_ne_nil).2 h)
  | cons entry rest ih =>
    obtain ⟨w, next⟩ := entry
    obtain ⟨hrun, hw, hrest⟩ := h
    have hc : Text.cut? d.opening.toList (Script.textFrom d run ((w, next) :: rest)) =
        some (run, w.body d ++ Script.textFrom w.after next rest) := by
      have := Text.cut?_append d.opening_ne_nil
        (w.body d ++ Script.textFrom w.after next rest) hrun
      simpa only [Script.textFrom, WrittenTag.text, List.append_assoc] using this
    have ht := Tag.read_body hw ((Position.start.after before).after run)
      (Script.textFrom w.after next rest)
    rw [ofSource_of_read hc ht]
    simp only [← Position.after_append, Span.between_after, ih _ hrest]
    rfl

/-- Every source that is scanned is the print of a legible script. -/
theorem exists_script {d : Delimiters} {place : Position} {source : List Char} {scan : Scan}
    (h : ofSource d place source = .ok scan) :
    ∀ before, place = Position.start.after before →
      ∃ rest, Script.LegibleFrom d scan.head rest ∧ Script.textFrom d scan.head rest = source ∧
        scan.rest = Script.tagsFrom d before scan.head rest := by
  fun_induction ofSource d place source generalizing scan with
  | case1 d place source hc =>
    intro before _
    cases h
    exact ⟨[], (Text.cut?_eq_none_iff d.opening_ne_nil).1 hc, rfl, rfl⟩
  | case2 | case3 => cases h
  | case4 d place source run body hc opening tag past tail ht scan' hs =>
    rename_i ih
    rintro before rfl
    cases h
    obtain ⟨w, hw, rfl, rfl, rfl⟩ := Tag.exists_written ht
    obtain ⟨hsource, hrun⟩ := (Text.cut?_eq_some_iff d.opening_ne_nil).1 hc
    obtain ⟨rest, hleg, htext, htags⟩ := ih hs (before ++ run ++ w.text d)
      (by simp only [opening, Position.after_append])
    refine ⟨(w, scan'.head) :: rest, ⟨hrun, hw, hleg⟩, ?_, ?_⟩
    · rw [Script.textFrom, htext, hsource]
      simp only [WrittenTag.text, List.append_assoc]
    · simp only [opening, ← Position.after_append, Span.between_after, htags]
      rfl

/-! ## Nothing lost, nothing twice -/

theorem byteSize_text_pos (d : Delimiters) (w : WrittenTag) :
    0 < Text.byteSize (w.text d) := by
  obtain ⟨c, _, cs, hc⟩ := w.exists_text_eq_cons d
  have := c.utf8Size_pos
  rw [hc, Text.byteSize]
  omega

/-- The runs and tags of a script lie side by side in its print. -/
theorem coversFrom_tagsFrom (d : Delimiters) (before run : List Char)
    (rest : List (WrittenTag × List Char)) :
    CoversFrom (before ++ Script.textFrom d run rest) (Text.byteSize before) run
      (Script.tagsFrom d before run rest) := by
  induction rest generalizing d before run with
  | nil =>
    refine ⟨?_, ?_⟩
    · have := Text.slice_append before run []
      simpa only [Script.textFrom, List.append_nil, Text.byteSize_append] using this
    · rw [Script.textFrom, Text.byteSize_append]
  | cons entry rest ih =>
    obtain ⟨w, next⟩ := entry
    have hpos := byteSize_text_pos d w
    refine ⟨?_, ?_, ?_, ?_⟩
    · have := Text.slice_append before run (w.text d ++ Script.textFrom w.after next rest)
      simpa only [Script.textFrom, WrittenTag.toTag, Span.ofText, Text.byteSize_append,
        List.append_assoc] using this
    · exact (Text.byteSize_append before run).symm
    · show Text.byteSize (before ++ run) < Text.byteSize (before ++ run ++ w.text d)
      rw [Text.byteSize_append (before ++ run)]
      omega
    · have := ih w.after (before ++ run ++ w.text d) next
      simpa only [Script.textFrom, WrittenTag.toTag, Span.ofText, List.append_assoc] using this

/-- Scanning gives a result exactly for the prints of legible scripts, and the result is the runs
and tags of the script: names trimmed, extents as printed, delimiters as in force. Then the runs
are one more than the tags, and together they are a partition of the source. -/
theorem ofSource_eq_ok_iff_text (d : Delimiters) (source : List Char) (scan : Scan) :
    (ofSource d Position.start source = .ok scan ↔
      ∃ script : Script, script.Legible d ∧ script.text d = source ∧ script.scan d = scan) ∧
    (ofSource d Position.start source = .ok scan →
      scan.runs.length = scan.tags.length + 1 ∧ scan.Covers source) := by
  have hfound : ofSource d Position.start source = .ok scan →
      ∃ script : Script, script.Legible d ∧ script.text d = source ∧ script.scan d = scan := by
    intro h
    obtain ⟨rest, hleg, htext, htags⟩ := exists_script h [] rfl
    refine ⟨⟨scan.head, rest⟩, hleg, htext, ?_⟩
    rw [Script.scan, ← htags]
  refine ⟨⟨hfound, ?_⟩, ?_⟩
  · rintro ⟨script, hleg, rfl, rfl⟩
    exact ofSource_textFrom [] hleg
  · intro h
    obtain ⟨script, _, rfl, rfl⟩ := hfound h
    refine ⟨by simp [runs, tags], ?_⟩
    exact coversFrom_tagsFrom d [] script.head script.rest

theorem ofSource_switching_text :
    let source := "a\x7b\x7b= <% %> =\x7d\x7d\n<%# s%>\x7b\x7bx<%\x7by\x7d%><%/s %>é".toList
    let scan := Script.switching.scan .braces
    Script.switching.text .braces = source ∧ ofSource .braces .start source = .ok scan ∧
      scan.runs.length = scan.tags.length + 1 ∧ scan.Covers source ∧
      scan.tags.map (fun tag => (tag.name, tag.span.start, tag.span.stop)) =
        [("<% %>", 1, 14), ("s", 15, 22), ("y", 25, 32), ("s", 32, 39)] := by
  intro source scan
  have htext : Script.switching.text .braces = source := by decide
  obtain ⟨hiff, hcovers⟩ := ofSource_eq_ok_iff_text .braces source scan
  have hscan := hiff.2 ⟨Script.switching, by decide, htext, rfl⟩
  exact ⟨htext, hscan, (hcovers hscan).1, (hcovers hscan).2, by decide⟩

end Scan

/-- The print of a legible script compiles to what its runs and tags become. -/
theorem Scan.ofSource_text {d : Delimiters} {script : Script} (h : script.Legible d) :
    ofSource d Position.start (script.text d) = .ok (script.scan d) :=
  ofSource_textFrom [] h

theorem Template.compile_text {d : Delimiters} {script : Script} (h : script.Legible d) :
    compile (script.text d) d =
      Tree.ofLayout (script.text d) (Layout.ofScan (script.scan d)) := by
  rw [compile, Scan.ofSource_text h]

theorem Template.parse_text {d : Delimiters} {script : Script} {nodes : List Node}
    (name : Option String) (h : script.Legible d)
    (hnodes : Tree.ofLayout (script.text d) (Layout.ofScan (script.scan d)) = .ok nodes) :
    parse (String.ofList (script.text d)) name d = .ok ⟨name, nodes⟩ := by
  rw [parse_eq_ok_iff, String.toList_ofList, compile_text h]
  exact ⟨hnodes, rfl⟩

end Mustache
