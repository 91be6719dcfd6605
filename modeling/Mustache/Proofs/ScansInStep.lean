import Mathlib.Data.List.Forall2
import Mustache.Proofs.Spacing
import Mustache.Proofs.StandAlone

/-!
# Mustache.Proofs.ScansInStep

Two sources scanned in step. Where both have a tag next, read with the same fault or as related
tags, and what is left of them is in step again, their scans are related or fail with related
faults (`Scan.agree_of_steps`). A source that is spelled otherwise has its tags read alike if its
spelling moves no end of a tag and changes no delimiters (`Tag.read_in_step`).
-/

namespace Mustache

/-- Both fail, with related errors, or both succeed, with related results. -/
inductive Agree {ε α : Type} (E : ε → ε → Prop) (R : α → α → Prop) :
    Except ε α → Except ε α → Prop
  | error {e e' : ε} (h : E e e') : Agree E R (.error e) (.error e')
  | ok {a a' : α} (h : R a a') : Agree E R (.ok a) (.ok a')

theorem Agree.imp {ε α : Type} {E E' : ε → ε → Prop} {R R' : α → α → Prop} {x x' : Except ε α}
    (h : Agree E R x x') (herror : ∀ e e', E e e' → E' e e') (hok : ∀ a a', R a a' → R' a a') :
    Agree E' R' x x' := by
  cases h with
  | error h => exact .error (herror _ _ h)
  | ok h => exact .ok (hok _ _ h)

namespace Tag

/-! ## Reading a tag -/

/-- What stands on either side of the content has no white space. -/
theorem ofBody_not_isBlank (body : List Char) :
    (∀ c ∈ (Head.ofBody body).sign, Text.isBlank c = false) ∧
      ∀ c ∈ (Head.ofBody body).mark, Text.isBlank c = false := by
  obtain ⟨form, hform, _⟩ := exists_form body
  have hclear : (form.head.sign ++ form.head.mark).any Text.isBlank = false := by
    cases form <;> rfl
  rw [hform]
  rw [List.any_append, Bool.or_eq_false_iff] at hclear
  exact ⟨fun c hc => Bool.eq_false_iff.2 (List.any_eq_false.1 hclear.1 c hc),
    fun c hc => Bool.eq_false_iff.2 (List.any_eq_false.1 hclear.2 c hc)⟩

/-- What ends a tag is no empty text and has no white space. -/
theorem terminator_not_isBlank (d : Delimiters) (body : List Char) :
    (Head.ofBody body).mark ++ d.closing.toList ≠ [] ∧
      ∀ c ∈ (Head.ofBody body).mark ++ d.closing.toList, Text.isBlank c = false := by
  refine ⟨List.append_ne_nil_of_right_ne_nil _ d.closing_ne_nil, ?_⟩
  intro c hc
  rcases List.mem_append.1 hc with hc | hc
  · exact (ofBody_not_isBlank body).2 c hc
  · exact d.not_isBlank.2 c hc

/-- The tag that `read` makes of a head and a content, printed under the delimiters `d`. -/
def printed (d : Delimiters) (head : Head) (content : List Char) : List Char :=
  d.opening.toList ++ head.sign ++ content ++ (head.mark ++ d.closing.toList)

/-- The opening delimiter and what follows it are the tag that is read and the rest. -/
theorem read_cases (d : Delimiters) (place : Position) (body : List Char) :
    (Text.cut? ((Head.ofBody body).mark ++ d.closing.toList)
        (body.drop (Head.ofBody body).sign.length) = none ∧
      read d place body = .error .unclosedTag) ∨
    ∃ content rest, Text.cut? ((Head.ofBody body).mark ++ d.closing.toList)
        (body.drop (Head.ofBody body).sign.length) = some (content, rest) ∧
      d.opening.toList ++ body = printed d (Head.ofBody body) content ++ rest ∧
      read d place body =
        match delimitersAfter d (Head.ofBody body).kind content with
        | .error fault => .error fault
        | .ok delimiters =>
          let past := place.after (printed d (Head.ofBody body) content)
          .ok (⟨(Head.ofBody body).kind, String.ofList (Text.trim content), .between place past,
            delimiters⟩, past, rest) := by
  unfold read
  cases hcut : Text.cut? ((Head.ofBody body).mark ++ d.closing.toList)
      (body.drop (Head.ofBody body).sign.length) with
  | none => exact .inl ⟨rfl, by simp only [hcut]⟩
  | some found =>
    obtain ⟨content, rest⟩ := found
    refine .inr ⟨content, rest, rfl, ?_, by simp only [hcut]; rfl⟩
    have hbody := Head.sign_append_drop body
    rw [Text.eq_of_cut? hcut] at hbody
    conv_lhs => rw [← hbody]
    simp only [printed, List.append_assoc]

/-- A tag that is spelled otherwise, with its content changed by `respell` and the source behind it
by `behind`, is read with the same fault, or as the same kind of tag up to the same place. -/
theorem read_in_step {d : Delimiters} {body body' : List Char}
    {respell behind : List Char → List Char} (hhead : Head.ofBody body' = Head.ofBody body)
    (hcut : Text.cut? ((Head.ofBody body).mark ++ d.closing.toList)
        (body'.drop (Head.ofBody body).sign.length) =
      (Text.cut? ((Head.ofBody body).mark ++ d.closing.toList)
        (body.drop (Head.ofBody body).sign.length)).map fun found =>
          (respell found.1, behind found.2))
    (hafter : ∀ content, delimitersAfter d (Head.ofBody body).kind (respell content) =
      delimitersAfter d (Head.ofBody body).kind content) (place place' : Position) :
    (∃ fault, read d place body = .error fault ∧ read d place' body' = .error fault) ∨
    ∃ content rest delimiters,
      let head := Head.ofBody body
      let past := place.after (printed d head content)
      let past' := place'.after (printed d head (respell content))
      d.opening.toList ++ body = printed d head content ++ rest ∧
      d.opening.toList ++ body' = printed d head (respell content) ++ behind rest ∧
      read d place body = .ok (⟨head.kind, String.ofList (Text.trim content),
        .between place past, delimiters⟩, past, rest) ∧
      read d place' body' = .ok (⟨head.kind, String.ofList (Text.trim (respell content)),
        .between place' past', delimiters⟩, past', behind rest) := by
  have hbody' := read_cases d place' body'
  rw [hhead, hcut] at hbody'
  rcases read_cases d place body with ⟨hnone, hread⟩ | ⟨content, rest, hsome, hbody, hread⟩
  · rw [hnone] at hbody'
    rcases hbody' with ⟨-, hread'⟩ | ⟨_, _, hsome, -⟩
    · exact .inl ⟨_, hread, hread'⟩
    · cases hsome
  · rw [hsome] at hbody'
    rcases hbody' with ⟨hnone, -⟩ | ⟨content', rest', hsome', hbody', hread'⟩
    · cases hnone
    · cases hsome'
      simp only [hafter] at hread'
      cases hdelimiters : delimitersAfter d (Head.ofBody body).kind content with
      | error fault =>
        rw [hdelimiters] at hread hread'
        exact .inl ⟨fault, hread, hread'⟩
      | ok delimiters =>
        rw [hdelimiters] at hread hread'
        exact .inr ⟨content, rest, delimiters, hbody, hbody', hread, hread'⟩

/-! ## Tags with other white space -/

variable {f : Char → List Char}

theorem ofBody_of_isBlank {c : Char} (hc : Text.isBlank c = true) (body : List Char) :
    Head.ofBody (c :: body) = ⟨.interpolation .html, [], []⟩ := by
  have hne {x : Char} (hx : Text.isBlank x = false) : c ≠ x := by
    rintro rfl
    rw [hc] at hx
    cases hx
  have hsign : TagKind.ofSign? c = none := by
    rw [TagKind.ofSign?, if_neg (hne rfl), if_neg (hne rfl), if_neg (hne rfl), if_neg (hne rfl),
      if_neg (hne rfl), if_neg (hne rfl)]
  rw [Head.ofBody, if_neg (hne rfl), if_neg (hne rfl), hsign]

theorem ofBody_respaced (hf : Text.Respaces f) (body : List Char) :
    Head.ofBody (body.flatMap f) = Head.ofBody body := by
  cases body with
  | nil => rfl
  | cons c body =>
    cases hc : Text.isBlank c with
    | true =>
      obtain ⟨b, rest, hb, hrespaced⟩ := hf.exists_cons_of_blank hc body
      rw [hrespaced, ofBody_of_isBlank hb, ofBody_of_isBlank hc]
    | false =>
      rw [List.flatMap_cons, hf.keeps c hc]
      rfl

theorem drop_respaced (hf : Text.Respaces f) (body : List Char) :
    (body.flatMap f).drop (Head.ofBody body).sign.length =
      (body.drop (Head.ofBody body).sign.length).flatMap f := by
  have hbody := congrArg (List.flatMap f) (Head.sign_append_drop body)
  rw [List.flatMap_append, hf.eq_self (ofBody_not_isBlank body).1] at hbody
  rw [← hbody, List.drop_left]

theorem delimitersAfter_respaced (hf : Text.Respaces f) (d : Delimiters) (kind : TagKind)
    (content : List Char) :
    delimitersAfter d kind (content.flatMap f) = delimitersAfter d kind content := by
  have hempty : (Text.trim (content.flatMap f)).isEmpty = (Text.trim content).isEmpty := by
    rw [hf.trim, hf.isEmpty]
  cases kind with
  | setDelimiters => simp only [delimitersAfter, newDelimiters, hf.words]
  | comment => rfl
  | _ => simp only [delimitersAfter, hempty]

theorem printed_respaced (hf : Text.Respaces f) (d : Delimiters) (body content : List Char) :
    (printed d (Head.ofBody body) content).flatMap f =
      printed d (Head.ofBody body) (content.flatMap f) := by
  obtain ⟨hsign, hmark⟩ := ofBody_not_isBlank body
  obtain ⟨hopening, hclosing⟩ := d.not_isBlank
  simp only [printed, List.flatMap_append, hf.eq_self hsign, hf.eq_self hmark,
    hf.eq_self hopening, hf.eq_self hclosing]

/-- With other white space in all of the source, a tag is read with the same fault, or as the same
tag with other white space in its name. -/
theorem read_respaced (hf : Text.Respaces f) (d : Delimiters) (place place' : Position)
    (body : List Char) :
    (∃ fault, read d place body = .error fault ∧
      read d place' (body.flatMap f) = .error fault) ∨
    ∃ text tag tag' rest, d.opening.toList ++ body = text ++ rest ∧
      read d place body = .ok (tag, place.after text, rest) ∧
      read d place' (body.flatMap f) = .ok (tag', place'.after (text.flatMap f), rest.flatMap f) ∧
      tag'.kind = tag.kind ∧ tag'.name = String.ofList (tag.name.toList.flatMap f) ∧
      tag'.delimiters = tag.delimiters ∧ tag.span = .between place (place.after text) ∧
      tag'.span = .between place' (place'.after (text.flatMap f)) := by
  obtain ⟨hne, hclear⟩ := terminator_not_isBlank d body
  have hcut := hf.cut? hne hclear (body.drop (Head.ofBody body).sign.length)
  rw [← drop_respaced hf] at hcut
  obtain hfault | ⟨content, rest, delimiters, hbody, -, hread, hread'⟩ :=
    @read_in_step d body _ (List.flatMap f) (List.flatMap f) (ofBody_respaced hf body) hcut
      (delimitersAfter_respaced hf d _) place place'
  · exact .inl hfault
  · rw [← printed_respaced hf] at hread'
    refine .inr ⟨_, _, _, rest, hbody, hread, hread', rfl, ?_, rfl, rfl, rfl⟩
    rw [hf.trim, String.toList_ofList]

end Tag

/-! ## Scanning a source -/

namespace Scan

theorem ofSource_of_read_error {d : Delimiters} {place : Position} {source run body : List Char}
    {fault : ParseFault} (hc : Text.cut? d.opening.toList source = some (run, body))
    (ht : Tag.read d (place.after run) body = .error fault) :
    ofSource d place source =
      .error ⟨fault, (place.after run).line, (place.after run).column⟩ := by
  rw [ofSource]
  split
  · next hc' =>
    rw [hc] at hc'
    cases hc'
  · next hc' =>
    rw [hc] at hc'
    cases hc'
    simp only
    split
    · next ht' =>
      rw [ht] at ht'
      cases ht'
      rfl
    · next ht' =>
      rw [ht] at ht'
      cases ht'

/-- What two sources have next: no tag, or one that is read with a fault on both sides, or related
tags behind related runs, with what is left in step again. -/
inductive Step (E : LocatedFault → LocatedFault → Prop) (X : List Char → List Char → Prop)
    (T : Tag → Tag → Prop) (I : Position → Position → List Char → List Char → Prop)
    (d : Delimiters) (place place' : Position) (tail tail' : List Char) : Prop
  | last (hcut : Text.cut? d.opening.toList tail = none)
      (hcut' : Text.cut? d.opening.toList tail' = none) (hrun : X tail tail')
  | fault {run run' body body' : List Char} {fault fault' : ParseFault}
      (hcut : Text.cut? d.opening.toList tail = some (run, body))
      (hcut' : Text.cut? d.opening.toList tail' = some (run', body'))
      (hread : Tag.read d (place.after run) body = .error fault)
      (hread' : Tag.read d (place'.after run') body' = .error fault')
      (hfault : E ⟨fault, (place.after run).line, (place.after run).column⟩
        ⟨fault', (place'.after run').line, (place'.after run').column⟩)
  | tag {run run' body body' rest rest' : List Char} {tag tag' : Tag} {past past' : Position}
      (hcut : Text.cut? d.opening.toList tail = some (run, body))
      (hcut' : Text.cut? d.opening.toList tail' = some (run', body'))
      (hread : Tag.read d (place.after run) body = .ok (tag, past, rest))
      (hread' : Tag.read d (place'.after run') body' = .ok (tag', past', rest'))
      (hrun : X run run') (htag : T tag tag') (hdelimiters : tag'.delimiters = tag.delimiters)
      (hrest : I past past' rest rest')

theorem agree_of_steps {E : LocatedFault → LocatedFault → Prop}
    {X : List Char → List Char → Prop} {T : Tag → Tag → Prop}
    {I : Position → Position → List Char → List Char → Prop}
    (hstep : ∀ d place place' tail tail', I place place' tail tail' →
      Step E X T I d place place' tail tail')
    (d : Delimiters) {place place' : Position} {tail tail' : List Char}
    (h : I place place' tail tail') :
    Agree E (fun scan scan' => X scan.head scan'.head ∧
        List.Forall₂ (fun entry entry' => T entry.1 entry'.1 ∧ X entry.2 entry'.2) scan.rest
          scan'.rest)
      (ofSource d place tail) (ofSource d place' tail') := by
  -- on the length of what is left, as scanning itself goes on
  induction hlength : tail.length using Nat.strongRecOn generalizing d place place' tail tail' with
  | ind length ih =>
    cases hstep d _ _ _ _ h with
    | last hcut hcut' hrun =>
      rw [ofSource_of_cut?_eq_none _ hcut, ofSource_of_cut?_eq_none _ hcut']
      exact .ok ⟨hrun, .nil⟩
    | fault hcut hcut' hread hread' hfault =>
      rw [ofSource_of_read_error hcut hread, ofSource_of_read_error hcut' hread']
      exact .error hfault
    | @tag _ _ _ _ rest rest' tag _ past past' hcut hcut' hread hread' hrun htag hdelimiters
        hrest =>
      have hlt : rest.length < length := by
        have hbody := Text.length_after_cut? hcut
        have hrest := Tag.length_rest_of_read hread
        have hopening := List.length_pos_iff.2 d.opening_ne_nil
        omega
      have hagree := ih rest.length hlt tag.delimiters hrest rfl
      rw [ofSource_of_read hcut hread, ofSource_of_read hcut' hread', hdelimiters]
      generalize ofSource tag.delimiters past rest = scanned at hagree ⊢
      generalize ofSource tag.delimiters past' rest' = scanned' at hagree ⊢
      cases hagree with
      | error hfault => exact .error hfault
      | ok hscans => exact .ok ⟨hrun, .cons ⟨htag, hscans.1⟩ hscans.2⟩

end Scan

end Mustache
