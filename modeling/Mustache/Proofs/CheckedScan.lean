import Mustache.Proofs.Checked

/-!
# Mustache.Proofs.CheckedScan

The checked scan. Every offset it meets is the size of a part of the source in front of it, so
every cut is between characters (`slice?_append`); each turn takes up at least the delimiters of
a tag, so the scan ends; and it finds the runs and tags that `Scan.ofSource` finds.
-/

namespace Mustache

/-! ## Cuts and places -/

namespace Text

theorem isBoundary_iff {offset : Nat} {cs : List Char} :
    isBoundary offset cs = true ↔ ∃ before after, cs = before ++ after ∧ offset = byteSize before := by
  rw [isBoundary, beq_iff_eq]
  constructor
  · intro h
    exact ⟨takeBytes offset cs, dropBytes offset cs, (takeBytes_append_dropBytes offset cs).symm,
      h.symm⟩
  · rintro ⟨before, after, rfl, rfl⟩
    rw [takeBytes_byteSize]

theorem slice?_of_isBoundary {start stop : Nat} {cs : List Char} (hle : start ≤ stop)
    (hstart : isBoundary start cs = true) (hstop : isBoundary stop cs = true) :
    slice? start stop cs = some (slice start stop cs) :=
  if_pos ⟨hle, hstart, hstop⟩

/-- Between the sizes of the parts of a text, its middle part is cut out. -/
theorem slice?_append (before text after : List Char) :
    slice? (byteSize before) (byteSize before + byteSize text) (before ++ text ++ after) =
      some text := by
  rw [slice?_of_isBoundary (Nat.le_add_right _ _), slice_append]
  · exact isBoundary_iff.2 ⟨before, text ++ after, List.append_assoc _ _ _, rfl⟩
  · exact isBoundary_iff.2 ⟨before ++ text, after, rfl, (byteSize_append before text).symm⟩

theorem slice?_prefix (text after : List Char) :
    slice? 0 (byteSize text) (text ++ after) = some text := by
  have h := slice?_append [] text after
  rwa [byteSize, Nat.zero_add, List.nil_append] at h

theorem slice?_suffix (before text : List Char) :
    slice? (byteSize before) (byteSize (before ++ text)) (before ++ text) = some text := by
  have h := slice?_append before text []
  rwa [List.append_nil, ← byteSize_append] at h

theorem findLast?_eq_none {c : Char} {cs : List Char} (h : c ∉ cs) : findLast? c cs = none := by
  induction cs with
  | nil => rfl
  | cons d cs ih =>
    rw [List.mem_cons, not_or] at h
    rw [findLast?, ih h.2]
    exact if_neg (Ne.symm h.1)

theorem findLast?_append {c : Char} {tail : List Char} (h : c ∉ tail) (head : List Char) :
    findLast? c (head ++ c :: tail) = some (byteSize head) := by
  induction head with
  | nil =>
    rw [List.nil_append, findLast?, findLast?_eq_none h]
    exact if_pos rfl
  | cons d head ih => rw [List.cons_append, findLast?, ih, byteSize]

theorem byteSize_eq_zero_iff {cs : List Char} : byteSize cs = 0 ↔ cs = [] := by
  cases cs with
  | nil => exact iff_of_true rfl rfl
  | cons c cs =>
    have hc := c.utf8Size_pos
    refine iff_of_false ?_ nofun
    rw [byteSize]
    omega

end Text

/-- A pair that can be in force: neither delimiter is empty, or holds white space or an equals
sign. -/
structure Delimiters.Clear (d : Delimiters) : Prop where
  opening : d.opening.toList ≠ []
  closing : d.closing.toList ≠ []
  isBlank : ∀ c ∈ d.opening.toList ++ d.closing.toList, Text.isBlank c = false
  equalsSign : '=' ∉ d.opening.toList ++ d.closing.toList

theorem Delimiters.clear (d : Delimiters) : d.Clear where
  opening := d.opening_ne_nil
  closing := d.closing_ne_nil
  isBlank := by
    intro c hc
    rcases List.mem_append.1 hc with hc | hc
    · exact d.not_isBlank.1 c hc
    · exact d.not_isBlank.2 c hc
  equalsSign := by
    have hd := d.usable
    unfold DelimiterFault.of? at hd
    split at hd
    · cases hd
    · split at hd
      · cases hd
      · split at hd
        · cases hd
        · next h => simpa using h

namespace Position

theorem line_after (place : Position) (cs : List Char) :
    (place.after cs).line = place.line + cs.count '\n' := by
  induction cs generalizing place with
  | nil => rfl
  | cons c cs ih =>
    rw [after_cons, ih, next, List.count_cons]
    split
    · next hc =>
      rw [if_pos (by simpa using hc)]
      exact Nat.add_right_comm _ _ _
    · next hc => simp [hc]

theorem column_after (cs : List Char) :
    (Position.start.after cs).column = (Text.lineHead cs).length + 1 := by
  by_cases hlf : '\n' ∈ cs
  · obtain ⟨head, tail, rfl, htail⟩ := Text.exists_lastBreak hlf
    have hsplit : head ++ '\n' :: tail = (head ++ ['\n']) ++ tail := by simp
    rw [Text.lineHead_append_cons, Text.lineHead_of_not_mem htail, hsplit, after_append,
      (moved_after htail _).column, after_append]
    exact Nat.add_comm 1 _
  · rw [(moved_after hlf _).column, Text.lineHead_of_not_mem hlf]
    exact Nat.add_comm 1 _

end Position

namespace Checked

open Text (byteSize)

theorem minus?_of_le {n m : Nat} (h : m ≤ n) : minus? n m = some (n - m) :=
  if_pos h

theorem place?_append (before after : List Char) :
    place? (before ++ after) (byteSize before) =
      some ((Position.start.after before).line, (Position.start.after before).column) := by
  have hline : (Position.start.after before).line = before.count '\n' + 1 :=
    (Position.line_after .start before).trans (Nat.add_comm _ _)
  rw [place?, Text.slice?_prefix, hline, Position.column_after]
  by_cases hlf : '\n' ∈ before
  · obtain ⟨head, tail, rfl, htail⟩ := Text.exists_lastBreak hlf
    have hsplit : head ++ '\n' :: tail = (head ++ ['\n']) ++ tail := by simp
    have hsize : byteSize head + 1 = byteSize (head ++ ['\n']) := by
      rw [Text.byteSize_append]
      rfl
    simp only [Option.bind_eq_bind, Option.bind_some, Text.findLast?_append htail]
    rw [Text.lineHead_append_cons, Text.lineHead_of_not_mem htail, hsize, hsplit,
      Text.slice?_suffix]
    rfl
  · have hslice := Text.slice?_prefix before []
    rw [List.append_nil] at hslice
    simp only [Option.bind_eq_bind, Option.bind_some, Text.findLast?_eq_none hlf]
    rw [hslice, Text.lineHead_of_not_mem hlf]
    rfl

theorem snippet?_eq (source : List Char) (line column : Nat) :
    snippet? source line column = some (Snippet.ofSource (String.ofList source) line column) := by
  have hfirst : 1 ≤ max (line - 2) 1 := by omega
  have hlast : max (line - 2) 1 ≤ line + 3 := by omega
  rw [snippet?, Snippet.ofSource, String.toList_ofList]
  simp only [minus?_of_le hfirst, minus?_of_le hlast]
  rfl

end Checked

/-- The error that a fault in a source is reported as. -/
def LocatedFault.inSource (source : List Char) (name : Option String) (located : LocatedFault) :
    ParseError :=
  ⟨located.fault, located.line, located.column, name,
    Snippet.ofSource (String.ofList source) located.line located.column⟩

namespace Checked

open Text (byteSize)

variable {source gone rest : List Char} {name : Option String} {d : Delimiters}

theorem error?_append (hsource : source = gone ++ rest) (fault : ParseFault) :
    error? source name fault (byteSize gone) =
      some (LocatedFault.inSource source name ⟨fault, (Position.start.after gone).line,
        (Position.start.after gone).column⟩) := by
  subst hsource
  rw [error?, place?_append]
  simp only [Option.bind_eq_bind, Option.bind_some, snippet?_eq]
  rfl

/-! ## Runs -/

/-- The trimmer knows how far it has come. -/
theorem foldlM_advance (octets front run back : List UInt8) (hoctets : octets = front ++ run ++ back)
    {t : Trimmer} {start seen : Nat} (hfront : front.length = start + seen) (hseen : t.seen = seen) :
    (List.range' (start + seen) run.length).foldlM (fun (t : Trimmer) offset => do
        let seen ← minus? offset start
        let octet ← octets[offset]?
        return Trimmer.advance { t with seen } octet) t =
      some (run.foldl Trimmer.advance t) := by
  induction run generalizing front t seen with
  | nil => rfl
  | cons octet run ih =>
    have hget : octets[start + seen]? = some octet := by
      rw [hoctets, ← hfront]
      simp
    have hsub : minus? (start + seen) start = some seen := by
      rw [minus?_of_le (Nat.le_add_right _ _), Nat.add_sub_cancel_left]
    have hnext := @ih (front ++ [octet]) (by simp [hoctets]) (t.advance octet) (seen + 1)
      (by rw [List.length_append, hfront]; rfl) (by rw [Trimmer.seen_advance, hseen])
    rw [List.length_cons, List.range'_succ, List.foldlM_cons, hget, hsub]
    subst hseen
    exact hnext

/-- A run is read alike wherever it stands, and whatever stands behind it. -/
theorem trimmer?_run (before run after : List UInt8) :
    trimmer? (before ++ run ++ after) before.length (before.length + run.length) =
      some (Trimmer.scan run) := by
  rw [trimmer?, Nat.add_sub_cancel_left]
  exact foldlM_advance _ before run after rfl rfl rfl

theorem trimmer?_append (before run after : List Char) :
    trimmer? (Text.toOctets (before ++ run ++ after)) (byteSize before)
        (byteSize before + byteSize run) = some (Trimmer.scan (Text.toOctets run)) := by
  rw [Text.toOctets_append, Text.toOctets_append, ← Text.length_toOctets before,
    ← Text.length_toOctets run]
  exact trimmer?_run _ _ _

/-- A run that is kept as a whole. -/
def Stretch.ofText (offset : Nat) (text : List Char) : Stretch :=
  ⟨offset, offset + byteSize text, Trimmer.scan (Text.toOctets text), offset,
    offset + byteSize text⟩

/-- The runs of a scan, the first of them at an offset. -/
def stretchesFrom (offset : Nat) (run : List Char) (rest : List (Tag × List Char)) :
    List Stretch :=
  .ofText offset run :: rest.map fun entry => .ofText entry.1.span.stop entry.2

/-! ## Tags -/

/-- The first octet of a character is a sign only if the character is. -/
theorem octet_eq_iff {c a : Char} {octet : UInt8} (ha : a.toNat < 0x80)
    (h : octet = UInt8.ofNat a.toNat ↔ c = a) : Char.ofNat octet.toNat = a ↔ c = a := by
  rw [← h]
  constructor
  · rintro rfl
    have hvalid : octet.toNat.isValidChar := .inl (by have := octet.toNat_lt; omega)
    have htoNat : (Char.ofNat octet.toNat).toNat = octet.toNat := by
      rw [Char.ofNat, dif_pos hvalid]
      rfl
    rw [htoNat, UInt8.ofNat_toNat]
  · rintro rfl
    rw [UInt8.toNat_ofNat', Nat.mod_eq_of_lt (by omega), Char.ofNat_toNat]

theorem ofBody_of_not_mem {c : Char} (h : c ∉ TagForm.signs) (cs : List Char) :
    Tag.Head.ofBody (c :: cs) = TagForm.plain.head := by
  refine @Tag.ofBody_head .plain [c] cs ?_ nofun
  intro _ x hx
  cases hx
  exact h

theorem headAt_append (before body : List Char) :
    headAt (Text.toOctets (before ++ body)) (byteSize before) = .ofBody body := by
  rw [headAt, Text.toOctets_append, ← Text.length_toOctets]
  cases body with
  | nil => simp [Text.toOctets]
  | cons c cs =>
    obtain ⟨octet, octets, hc, hsign⟩ := Text.head_utf8EncodeChar c
    have hget : (Text.toOctets before ++ Text.toOctets (c :: cs))[(Text.toOctets before).length]? =
        some octet := by
      rw [Text.toOctets_cons, hc]
      simp
    have hascii : ∀ a ∈ TagForm.signs, a.toNat < 0x80 := by simp [TagForm.signs]
    rw [hget]
    by_cases hmem : c ∈ TagForm.signs
    · have hoctet := (octet_eq_iff (hascii c hmem) (hsign c (hascii c hmem))).2 rfl
      simp only [hoctet]
      rfl
    · have hoctet : Char.ofNat octet.toNat ∉ TagForm.signs := by
        intro h
        have hlt := hascii _ h
        rw [← (octet_eq_iff hlt (hsign _ hlt)).1 rfl] at h
        exact hmem h
      simp only [ofBody_of_not_mem hoctet, ofBody_of_not_mem hmem]

/-- What is reported at the place behind a text. -/
def errorBehind (source : List Char) (name : Option String) (gone : List Char)
    (fault : ParseFault) : ParseError :=
  let place := Position.start.after gone
  LocatedFault.inSource source name ⟨fault, place.line, place.column⟩

theorem readTag?_eq {body : List Char} (hsource : source = gone ++ (d.opening.toList ++ body)) :
    readTag? source name d (byteSize gone) =
      some (match Tag.read d (Position.start.after gone) body with
        | .error fault => .error (errorBehind source name gone fault)
        | .ok (tag, _, _) => .ok tag) := by
  let head := Tag.Head.ofBody body
  let front := gone ++ d.opening.toList
  have hbody : source = front ++ body := by rw [hsource, List.append_assoc]
  have hdrop : head.sign ++ body.drop head.sign.length = body := Tag.Head.sign_append_drop body
  have hrest : source = (front ++ head.sign) ++ body.drop head.sign.length := by
    rw [List.append_assoc, hdrop]
    exact hbody
  have hhead : headAt (Text.toOctets source) (byteSize gone + byteSize d.opening.toList) = head := by
    rw [hbody, ← Text.byteSize_append]
    exact headAt_append front body
  have hstart : byteSize gone + byteSize d.opening.toList + byteSize head.sign =
      byteSize (front ++ head.sign) := by
    rw [Text.byteSize_append, Text.byteSize_append]
  have hslice : Text.slice? (byteSize (front ++ head.sign)) (byteSize source) source =
      some (body.drop head.sign.length) := by
    rw [hrest, Text.slice?_suffix]
  have hplace : place? source (byteSize gone) =
      some ((Position.start.after gone).line, (Position.start.after gone).column) := by
    rw [hsource, place?_append]
  have herror (fault : ParseFault) : error? source name fault (byteSize gone) =
      some (errorBehind source name gone fault) := error?_append hsource fault
  rw [readTag?, hhead]
  simp only [Option.bind_eq_bind, hstart, hslice, Option.bind_some, Text.find?]
  rcases Tag.read_cases d (Position.start.after gone) body with
    ⟨hcut, hread⟩ | ⟨content, after, hcut, -, hread⟩
  · simp only [head, hcut, hread, Option.map_none, herror]
    rfl
  · have hcontent : Text.slice? (byteSize (front ++ head.sign))
        (byteSize (front ++ head.sign) + byteSize content) source = some content := by
      rw [hrest, Text.eq_of_cut? hcut, List.append_assoc content, ← List.append_assoc _ content,
        Text.slice?_append]
    have hspan : (⟨byteSize gone, byteSize (front ++ head.sign) + byteSize content +
          byteSize (head.mark ++ d.closing.toList), (Position.start.after gone).line,
          (Position.start.after gone).column⟩ : Span) =
        .between (Position.start.after gone)
          ((Position.start.after gone).after (Tag.printed d head content)) := by
      have hoffset : (Position.start.after gone).offset = byteSize gone :=
        (Position.offset_after _ _).trans (Nat.zero_add _)
      rw [Span.between, hoffset, Position.offset_after, hoffset]
      simp only [Tag.printed, front, Text.byteSize_append, Nat.add_assoc]
    simp only [head, hcut, hread, Option.map_some, hcontent, hplace, Option.bind_some]
    cases Tag.delimitersAfter d head.kind content with
    | error fault =>
      simp only [herror]
      rfl
    | ok delimiters => rw [hspan]; rfl

/-- A tag that is read takes up at least its opening delimiter. -/
theorem exists_of_read {run body tail : List Char} {tag : Tag} {past : Position}
    (hrest : rest = run ++ (d.opening.toList ++ body))
    (hread : Tag.read d (Position.start.after (gone ++ run)) body = .ok (tag, past, tail)) :
    ∃ text, rest = run ++ (text ++ tail) ∧ past = Position.start.after (gone ++ (run ++ text)) ∧
      tag.span = .ofText (gone ++ run) text ∧ 0 < byteSize text := by
  obtain ⟨w, -, rfl, rfl, rfl⟩ := Tag.exists_written hread
  refine ⟨w.text d, ?_, ?_, ?_, Scan.byteSize_text_pos d w⟩
  · rw [hrest, WrittenTag.text, List.append_assoc]
  · rw [← Position.after_append, List.append_assoc]
  · rw [← Position.after_append]
    exact Span.between_after _ _

/-! ## Turns -/

theorem turn?_eq (hsource : source = gone ++ rest) (stretches : List Stretch) (tags : List Tag) :
    turn? source name ⟨byteSize gone, d, stretches, tags⟩ =
      some (match Text.cut? d.opening.toList rest with
        | none => .ended (stretches ++ [.ofText (byteSize gone) rest]) tags
        | some (run, body) =>
          match Tag.read d (Position.start.after (gone ++ run)) body with
          | .error fault => .failed (errorBehind source name (gone ++ run) fault)
          | .ok (tag, _, _) =>
            .going ⟨tag.span.stop, tag.delimiters, stretches ++ [.ofText (byteSize gone) run],
              tags ++ [tag]⟩) := by
  have hslice : Text.slice? (byteSize gone) (byteSize source) source = some rest := by
    rw [hsource, Text.slice?_suffix]
  rw [turn?]
  simp only [Option.bind_eq_bind, hslice, Option.bind_some, Text.find?]
  cases hcut : Text.cut? d.opening.toList rest with
  | none =>
    have htrimmer := trimmer?_append gone rest []
    rw [List.append_nil, ← Text.byteSize_append, ← hsource] at htrimmer
    simp only [Option.map_none, Option.getD_none, htrimmer, Option.bind_some]
    rw [Stretch.ofText, ← Text.byteSize_append, ← hsource]
    rfl
  | some found =>
    obtain ⟨run, body⟩ := found
    have hrest := Text.eq_of_cut? hcut
    have htag : source = (gone ++ run) ++ (d.opening.toList ++ body) := by
      rw [hsource, hrest]
      simp only [List.append_assoc]
    have htrimmer := trimmer?_append gone run (d.opening.toList ++ body)
    rw [← htag] at htrimmer
    simp only [Option.map_some, Option.getD_some, htrimmer, Option.bind_some]
    rw [← Text.byteSize_append, readTag?_eq htag]
    simp only [Option.bind_some]
    cases Tag.read d (Position.start.after (gone ++ run)) body with
    | error fault => rfl
    | ok found =>
      rw [Stretch.ofText, ← Text.byteSize_append]
      rfl

/-- A scan that has more turns left than there are octets ends as `Scan.ofSource` does. -/
theorem turns?_eq {count : Nat} (hsource : source = gone ++ rest) (hcount : byteSize rest < count)
    (stretches : List Stretch) (tags : List Tag) :
    turns? source name count ⟨byteSize gone, d, stretches, tags⟩ =
      some (match Scan.ofSource d (Position.start.after gone) rest with
        | .error located => .failed (located.inSource source name)
        | .ok scan =>
          .ended (stretches ++ stretchesFrom (byteSize gone) scan.head scan.rest)
            (tags ++ scan.tags)) := by
  induction count generalizing gone rest d stretches tags with
  | zero => exact absurd hcount (Nat.not_lt_zero _)
  | succ count ih =>
    rw [turns?, turn?_eq hsource]
    cases hcut : Text.cut? d.opening.toList rest with
    | none =>
      rw [Scan.ofSource_of_cut?_eq_none _ hcut]
      simp only [Scan.tags, List.map_nil, List.append_nil]
      rfl
    | some found =>
      obtain ⟨run, body⟩ := found
      have hrest := Text.eq_of_cut? hcut
      rw [List.append_assoc] at hrest
      simp only
      cases hread : Tag.read d (Position.start.after (gone ++ run)) body with
      | error fault =>
        have hread' := hread
        rw [Position.after_append] at hread'
        rw [Scan.ofSource_of_read_error hcut hread', ← Position.after_append]
        rfl
      | ok found =>
        obtain ⟨tag, past, tail⟩ := found
        obtain ⟨text, htext, rfl, hspan, hpos⟩ := exists_of_read hrest hread
        have hsource' : source = (gone ++ (run ++ text)) ++ tail := by
          rw [hsource, htext]
          simp only [List.append_assoc]
        have hstop : tag.span.stop = byteSize (gone ++ (run ++ text)) := by
          rw [hspan, ← List.append_assoc]
          rfl
        have hcount' : byteSize tail < count := by
          rw [htext, Text.byteSize_append, Text.byteSize_append] at hcount
          omega
        rw [Position.after_append] at hread
        rw [Scan.ofSource_of_read hcut hread]
        simp only [hstop, ih hsource' hcount']
        cases Scan.ofSource tag.delimiters (Position.start.after (gone ++ (run ++ text))) tail with
        | error located => rfl
        | ok scan =>
          simp only [stretchesFrom, hstop, Scan.tags, List.map_cons, List.append_assoc,
            List.singleton_append]

/-- A turn goes on behind the place where it began, or it is the last. -/
theorem turn?_cases (hsource : source = gone ++ rest) (stretches : List Stretch)
    (tags : List Tag) :
    (∃ last, turn? source name ⟨byteSize gone, d, stretches, tags⟩ = some last ∧
      ∀ state, last ≠ .going state) ∨
    ∃ text rest' d' stretch tag, source = (gone ++ text) ++ rest' ∧ 0 < byteSize text ∧
      turn? source name ⟨byteSize gone, d, stretches, tags⟩ =
        some (.going ⟨byteSize (gone ++ text), d', stretches ++ [stretch], tags ++ [tag]⟩) := by
  rw [turn?_eq hsource]
  cases hcut : Text.cut? d.opening.toList rest with
  | none => exact .inl ⟨_, rfl, nofun⟩
  | some found =>
    obtain ⟨run, body⟩ := found
    have hrest := Text.eq_of_cut? hcut
    rw [List.append_assoc] at hrest
    cases hread : Tag.read d (Position.start.after (gone ++ run)) body with
    | error fault =>
      left
      simp only [hread]
      exact ⟨_, rfl, nofun⟩
    | ok found =>
      obtain ⟨tag, past, tail⟩ := found
      obtain ⟨text, htext, -, hspan, hpos⟩ := exists_of_read hrest hread
      have hstop : tag.span.stop = byteSize (gone ++ (run ++ text)) := by
        rw [hspan, ← List.append_assoc]
        rfl
      right
      refine ⟨run ++ text, tail, tag.delimiters, .ofText (byteSize gone) run, tag, ?_, ?_, ?_⟩
      · rw [hsource, htext]
        simp only [List.append_assoc]
      · rw [Text.byteSize_append]
        omega
      · simp only [hread, hstop]

/-- Where the scan stands after so many turns. -/
theorem exists_of_turns? {count : Nat} {stretches : List Stretch} {tags : List Tag} {state : State}
    (hsource : source = gone ++ rest) (hruns : stretches.length = tags.length)
    (h : turns? source name count ⟨byteSize gone, d, stretches, tags⟩ = some (.going state)) :
    ∃ gone' rest', source = gone' ++ rest' ∧ state.pos = byteSize gone' ∧
      byteSize gone + count ≤ state.pos ∧ state.stretches.length = state.tags.length := by
  induction count generalizing gone rest d stretches tags with
  | zero =>
    cases h
    exact ⟨gone, rest, hsource, rfl, Nat.le_refl _, hruns⟩
  | succ count ih =>
    rw [turns?] at h
    rcases @turn?_cases source gone rest name d hsource stretches tags with
      ⟨last, hturn, hlast⟩ | ⟨text, rest', d', stretch, tag, hsource', hpos, hturn⟩
    · rw [hturn] at h
      cases last with
      | going state' => exact absurd rfl (hlast state')
      | ended | failed => cases h
    · rw [hturn] at h
      obtain ⟨gone', rest'', hgone', hstate, hcount, hlength⟩ := ih hsource' (by simp [hruns]) h
      rw [Text.byteSize_append] at hcount
      exact ⟨gone', rest'', hgone', hstate, by omega, hlength⟩

/-- What holds of the scan after each of its turns. -/
structure State.Sound (source : List Char) (state : State) : Prop where
  isBoundary : Text.isBoundary state.pos source = true
  pos_le : state.pos ≤ byteSize source
  delimiters : state.delimiters.Clear
  runs : state.stretches.length = state.tags.length

/-- After each of its turns the scan is sound, and the next turn is the last or goes on further
behind. -/
theorem sound_of_turns? {count : Nat} {state : State}
    (h : turns? source name count (.start d) = some (.going state)) :
    state.Sound source ∧ count ≤ state.pos ∧ ∃ turn, turn? source name state = some turn ∧
      ∀ next, turn = .going next → state.pos < next.pos := by
  obtain ⟨gone, rest, hsource, hpos, hcount, hruns⟩ :=
    @exists_of_turns? source [] source name d count [] [] state rfl rfl h
  obtain ⟨pos, d', stretches, tags⟩ := state
  simp only at hpos hcount hruns
  subst hpos
  have hle : byteSize gone ≤ byteSize source := by
    rw [hsource, Text.byteSize_append]
    exact Nat.le_add_right _ _
  refine ⟨⟨Text.isBoundary_iff.2 ⟨gone, rest, hsource, rfl⟩, hle, d'.clear, hruns⟩, ?_, ?_⟩
  · rwa [byteSize, Nat.zero_add] at hcount
  · rcases @turn?_cases source gone rest name d' hsource stretches tags with
      ⟨last, hturn, hlast⟩ | ⟨text, rest', d'', stretch, tag, hsource', htext, hturn⟩
    · exact ⟨last, hturn, fun next hnext => absurd hnext (hlast next)⟩
    · refine ⟨_, hturn, ?_⟩
      intro next hnext
      cases hnext
      show byteSize gone < byteSize (gone ++ text)
      rw [Text.byteSize_append]
      omega

end Checked
end Mustache
