import Mustache.Proofs.CheckedScan
import Mustache.Proofs.JoinedLayout
import Mustache.Proofs.Nesting

/-!
# Mustache.Proofs.CheckedLayout

The checked layout and the checked nesting. A run may be cut on both sides, for two tags, and
nothing in the layout compares the cuts. `BreaksOrdered` does: on the left a run is cut at its
first line break and on the right at its last one. Together with the checked scan this gives
`Template.parse_checked`: compiling never leaves the domain of what it does.
-/

namespace Mustache

/-! ## The two cuts of a run -/

namespace Trimmer

theorem seen_content (t : Trimmer) : t.content.seen = t.seen := by
  unfold content
  split
  · rfl
  · split <;> rfl

theorem seen_read (t : Trimmer) (octet : UInt8) : (t.read octet).seen = t.seen := by
  unfold read
  split
  · rfl
  · split
    · rfl
    · split
      · rfl
      · exact t.seen_content

/-- The first line break has been seen, and does not come after the last one. -/
def BreaksOrdered (t : Trimmer) : Prop :=
  ∀ first, t.first = .found first → first ≤ t.seen ∧ ∀ last, t.last = .found last → first ≤ last

theorem BreaksOrdered.lineBreak {t : Trimmer} (h : t.BreaksOrdered) : t.lineBreak.BreaksOrdered := by
  intro first hfirst
  have hseen : first ≤ t.seen := by
    unfold Trimmer.lineBreak at hfirst
    simp only at hfirst
    split at hfirst
    · cases hfirst
      exact Nat.le_refl _
    · exact (h first hfirst).1
  refine ⟨hseen, ?_⟩
  intro last hlast
  cases hlast
  exact hseen

theorem BreaksOrdered.content {t : Trimmer} (h : t.BreaksOrdered) : t.content.BreaksOrdered := by
  unfold Trimmer.content
  split
  · exact nofun
  · split
    · exact h
    · intro first hfirst
      exact ⟨(h first hfirst).1, nofun⟩

theorem BreaksOrdered.read {t : Trimmer} (h : t.BreaksOrdered) (octet : UInt8) :
    (t.read octet).BreaksOrdered := by
  unfold Trimmer.read
  split
  · exact h
  · split
    · exact h.lineBreak
    · split
      · exact h
      · exact h.content

/-- One octet more keeps the order. -/
theorem BreaksOrdered.advance {t : Trimmer} (h : t.BreaksOrdered) (octet : UInt8) :
    (t.advance octet).BreaksOrdered := by
  have hforward {t' : Trimmer} (h' : t'.BreaksOrdered) (hseen : t'.seen = t.seen) :
      BreaksOrdered { t' with seen := t.seen + 1 } := by
    intro first hfirst
    obtain ⟨hle, hlast⟩ := h' first hfirst
    refine ⟨?_, hlast⟩
    show first ≤ t.seen + 1
    omega
  by_cases hlf : octet = 0x0A
  · rw [hlf, advance_lineFeed]
    exact hforward h.lineBreak rfl
  · cases hpending : t.pendingReturn with
    | false =>
      rw [advance_of_idle hpending]
      exact hforward (h.read octet) (t.seen_read octet)
    | true =>
      rw [advance_of_pending hpending hlf]
      let now : Trimmer := { t with pendingReturn := false }
      have hnow : now.BreaksOrdered := h
      exact hforward (hnow.content.read octet)
        ((now.content.seen_read octet).trans now.seen_content)

theorem first_of_leftDecision {t : Trimmer} {boundary : Boundary}
    (h : t.leftDecision = .allow boundary) : t.first = .found boundary.index := by
  unfold leftDecision at h
  split at h
  · next hfirst =>
    cases h
    exact hfirst
  · cases h
  · cases h

theorem last_of_rightDecision {t : Trimmer} {boundary : Boundary}
    (h : t.rightDecision = .allow boundary) (hbreak : boundary.atLineBreak = true) :
    ∃ last, t.last = .found last ∧ boundary.index = last + 1 := by
  unfold rightDecision at h
  split at h
  · cases h
  · split at h
    · next last hlast =>
      cases h
      exact ⟨last, hlast, rfl⟩
    · cases h
      cases hbreak
    · cases h
    · cases h

theorem breaksOrdered_scan (octets : List UInt8) : (scan octets).BreaksOrdered := by
  have hfold (t : Trimmer) (h : t.BreaksOrdered) : (octets.foldl advance t).BreaksOrdered := by
    induction octets generalizing t with
    | nil => exact h
    | cons octet octets ih => exact ih _ (h.advance octet)
  exact hfold start nofun

end Trimmer

namespace Run

/-- A run is cut between two characters. -/
theorem exists_of_lineStart? {run : List Char} {opens closes : Bool} {cutFrom : Nat}
    (h : lineStart? ⟨run, opens, closes⟩ = some cutFrom) :
    ∃ kept margin, run = kept ++ margin ∧ cutFrom = Text.byteSize kept := by
  have hbefore : ∃ before : List Char, before.isEmpty = opens ∧
      ∀ c ∈ before.getLast?, Text.isBlank c = false := by
    cases opens with
    | true => exact ⟨[], rfl, nofun⟩
    | false =>
      refine ⟨['x'], rfl, ?_⟩
      intro c hc
      cases hc
      rfl
  obtain ⟨before, rfl, hblank⟩ := hbefore
  rcases @lineStart?_of_source before run closes hblank with ⟨kept, hrun, _, hkept⟩ | ⟨_, hnone⟩
  · rw [hkept] at h
    cases h
    exact ⟨kept, _, hrun, rfl⟩
  · rw [hnone] at h
    cases h

/-- Between two tags, the cut for the first does not end behind where the cut for the second
begins. -/
theorem lineEnd?_le_lineStart? {text : List Char} {opens closes closes' : Bool}
    {cutTo cutFrom : Nat} (hend : lineEnd? ⟨text, opens, closes⟩ = some cutTo)
    (hstart : lineStart? ⟨text, false, closes'⟩ = some cutFrom) : cutTo ≤ cutFrom := by
  let t := Trimmer.scan (Text.toOctets text)
  have hordered : t.BreaksOrdered := Trimmer.breaksOrdered_scan _
  have hright : ∃ boundary, t.rightDecision = .allow boundary ∧ boundary.atLineBreak = true ∧
      boundary.index = cutFrom := by
    unfold lineStart? at hstart
    split at hstart
    · next boundary hdecision =>
      refine ⟨boundary, hdecision, ?_⟩
      simpa using hstart
    · cases hstart
  obtain ⟨boundary, hdecision, hbreak, rfl⟩ := hright
  obtain ⟨last, hlast, hindex⟩ := Trimmer.last_of_rightDecision hdecision hbreak
  unfold lineEnd? at hend
  split at hend
  · next boundary' _ hleft =>
    cases hend
    have hfirst := Trimmer.first_of_leftDecision hleft
    have hle := (hordered _ hfirst).2 last hlast
    omega
  · next boundary' _ hright =>
    -- the run would be without a line break
    have hsame : TrimDecision.allow boundary' = .allow boundary := hright.symm.trans hdecision
    cases hsame
    simp [hbreak] at hend
  · cases hend

end Run

theorem Tag.of_cuts? {tag : Tag} {left right : Run} {cutFrom cutTo : Nat}
    (h : tag.cuts? left right = some (cutFrom, cutTo)) :
    left.lineStart? = some cutFrom ∧ right.lineEnd? = some cutTo := by
  unfold cuts? at h
  split at h
  · split at h
    · next hstart hend =>
      cases h
      exact ⟨hstart, hend⟩
    · cases h
  · cases h

namespace Checked

open Text (byteSize)

variable {source before run next after : List Char} {stretch stretch' : Stretch}

/-! ## Stand-alone tags -/

namespace Stretch

/-- The stretch is where a text stands, behind `before`. -/
structure Of (before text : List Char) (stretch : Stretch) : Prop where
  start : stretch.start = byteSize before
  stop : stretch.stop = byteSize before + byteSize text
  trimmer : stretch.trimmer = Trimmer.scan (Text.toOctets text)

theorem Of.lineStart?_eq (h : stretch.Of before run) (closes : Bool) :
    stretch.lineStart? =
      (Run.lineStart? ⟨run, before.isEmpty, closes⟩).map (byteSize before + ·) := by
  have hopens : (byteSize before == 0) = before.isEmpty := by
    rw [Bool.eq_iff_iff, beq_iff_eq, Text.byteSize_eq_zero_iff, List.isEmpty_iff]
  rw [Stretch.lineStart?, Run.lineStart?, Run.trimmer, h.start, h.trimmer]
  cases (Trimmer.scan (Text.toOctets run)).rightDecision with
  | preserve => rfl
  | allow boundary =>
    simp only [hopens]
    split <;> rfl

theorem Of.lineEnd?_eq (h : stretch.Of before run) (hsource : source = before ++ run ++ after)
    (opens : Bool) :
    stretch.lineEnd? (byteSize source) =
      (Run.lineEnd? ⟨run, opens, after.isEmpty⟩).map (byteSize before + ·) := by
  have hcloses : (byteSize before + byteSize run == byteSize source) = after.isEmpty := by
    rw [Bool.eq_iff_iff, beq_iff_eq, List.isEmpty_iff, ← Text.byteSize_eq_zero_iff, hsource,
      Text.byteSize_append, Text.byteSize_append]
    omega
  rw [Stretch.lineEnd?, Run.lineEnd?, Run.trimmer, h.start, h.stop, h.trimmer, hcloses]
  cases (Trimmer.scan (Text.toOctets run)).leftDecision with
  | allow boundary => rfl
  | preserve =>
    cases (Trimmer.scan (Text.toOctets run)).rightDecision with
    | preserve => rfl
    | allow boundary =>
      simp only
      split <;> rfl

end Stretch

/-- Cuts inside a part of the source are cuts of that part. -/
theorem slice?_middle {gone kept head tail : List Char} (hsource : source = before ++ run ++ after)
    (hgone : run = gone ++ kept) (hhead : run = head ++ tail)
    (hle : byteSize gone ≤ byteSize head) :
    Text.slice? (byteSize before + byteSize gone) (byteSize before + byteSize head) source =
      some (Text.slice (byteSize gone) (byteSize head) run) := by
  have hsize : byteSize head ≤ byteSize (gone ++ kept) := by
    rw [← hgone, hhead, Text.byteSize_append]
    omega
  have hmiddle := Text.slice_of_middle before gone kept after hsize
  rw [← hgone, ← hsource] at hmiddle
  rw [Text.slice?_of_isBoundary (by omega), hmiddle]
  · refine Text.isBoundary_iff.2 ⟨before ++ gone, kept ++ after, ?_, ?_⟩
    · rw [hsource, hgone]
      simp only [List.append_assoc]
    · rw [Text.byteSize_append]
  · refine Text.isBoundary_iff.2 ⟨before ++ head, tail ++ after, ?_, ?_⟩
    · rw [hsource, hhead]
      simp only [List.append_assoc]
    · rw [Text.byteSize_append]

/-- A tag is cut out between its two runs as the layout cuts it out. -/
theorem cut?_eq {before' after' : List Char} (h : stretch.Of before run)
    (hsource : source = before ++ run ++ after) (h' : stretch'.Of before' next)
    (hsource' : source = before' ++ next ++ after') (tag : Tag) (done more : List Stretch) :
    let stretches := done ++ stretch :: stretch' :: more
    let cuts := tag.cuts? ⟨run, before.isEmpty, false⟩ ⟨next, false, after'.isEmpty⟩
    (cuts = none → cut? source done.length tag stretches = some (stretches, [])) ∧
      ∀ cutFrom cutTo, cuts = some (cutFrom, cutTo) → ∃ indentation,
        cut? source done.length tag stretches =
          some (done ++ stretch.keptTo (byteSize before + cutFrom) ::
            stretch'.keptFrom (byteSize before' + cutTo) :: more, indentation) ∧
        (tag.kind = .inclusion → indentation = Text.dropBytes cutFrom run) := by
  intro stretches cuts
  have hleft : stretches[done.length]? = some stretch := by simp [stretches]
  have hright : stretches[done.length + 1]? = some stretch' := by simp [stretches]
  have hset (x y : Stretch) :
      (stretches.set done.length x).set (done.length + 1) y = done ++ x :: y :: more := by
    simp [stretches]
  simp only [cuts, cut?, Tag.cuts?]
  by_cases hkind : tag.kind.mayStandAlone = true
  · simp only [if_pos hkind, hleft, hright, Option.bind_eq_bind, Option.bind_some,
      h.lineStart?_eq false, h'.lineEnd?_eq hsource' false]
    cases hstart : Run.lineStart? ⟨run, before.isEmpty, false⟩ with
    | none => simp
    | some cutFrom =>
      cases Run.lineEnd? ⟨next, false, after'.isEmpty⟩ with
      | none => simp
      | some cutTo =>
        obtain ⟨kept, margin, hrun, rfl⟩ := Run.exists_of_lineStart? hstart
        have hmargin := slice?_middle hsource hrun (List.append_nil run).symm
          (by rw [hrun, Text.byteSize_append]; omega)
        rw [← h.stop, Text.slice_byteSize hrun] at hmargin
        simp only [Option.map_some, hset, hmargin]
        refine ⟨by simp, ?_⟩
        rintro _ _ ⟨⟩
        by_cases hinclusion : tag.kind = .inclusion
        · rw [if_pos hinclusion]
          exact ⟨_, rfl, fun _ => rfl⟩
        · rw [if_neg hinclusion]
          exact ⟨_, rfl, fun h => absurd h hinclusion⟩
  · simp [hkind]

theorem trim?_cons {tag : Tag} {tags : List Tag} {stretches done more trimmed : List Stretch}
    {first : Stretch} {indentation : List Char} {placed : List (Tag × List Char)}
    (hcut : cut? source done.length tag stretches = some (done ++ first :: more, indentation))
    (hrest : trim? source (done ++ [first]).length tags (done ++ [first] ++ more) =
      some (done ++ [first] ++ trimmed, placed)) :
    trim? source done.length (tag :: tags) stretches =
      some (done ++ first :: trimmed, (tag, indentation) :: placed) := by
  rw [List.length_append, List.append_assoc, List.append_assoc] at hrest
  rw [trim?, hcut]
  exact congrArg (Option.bind · _) hrest

/-- What is kept of a run is a text, and it is kept in order. -/
structure Keeps (source : List Char) (stretch : Stretch) (text : List Char) : Prop where
  ordered : stretch.Ordered
  slice : Text.slice? stretch.keepFrom stretch.keepTo source = some text

/-- The tag has the indentation that it is placed with, if it is a partial. -/
structure Indents (entry : Tag × List Char) (placed : PlacedTag) : Prop where
  tag : entry.1 = placed.tag
  indentation : placed.tag.kind = .inclusion → entry.2 = placed.margin.getD []

theorem keeps_middle {gone kept head tail : List Char} (h : stretch.Of before run)
    (hsource : source = before ++ run ++ after) (hgone : run = gone ++ kept)
    (hhead : run = head ++ tail) (hle : byteSize gone ≤ byteSize head)
    (hfrom : stretch.keepFrom = byteSize before + byteSize gone)
    (hto : stretch.keepTo = byteSize before + byteSize head) :
    Keeps source stretch (Text.slice (byteSize gone) (byteSize head) run) where
  ordered := by
    have hsize := congrArg byteSize hhead
    rw [Text.byteSize_append] at hsize
    have hstart := h.start
    have hstop := h.stop
    exact ⟨by omega, by omega, by omega⟩
  slice := by
    rw [hfrom, hto]
    exact slice?_middle hsource hgone hhead hle

theorem keeps_uncut {gone kept : List Char} (hsource : source = before ++ run ++ after)
    (hgone : run = gone ++ kept) :
    Keeps source ((Stretch.ofText (byteSize before) run).keptFrom (byteSize before + byteSize gone))
      (Text.dropBytes (byteSize gone) run) := by
  have hsize : byteSize gone ≤ byteSize run := by
    rw [hgone, Text.byteSize_append]
    omega
  rw [← Text.slice_byteSize hgone]
  exact keeps_middle ⟨rfl, rfl, rfl⟩ hsource hgone (List.append_nil run).symm hsize rfl rfl

/-- The tags behind a place are cut out as the layout cuts them out, if what is gone already of
the first run is not wanted by the tag behind it. -/
theorem trim?_eq {d : Delimiters} {gone kept : List Char} {rest : List (WrittenTag × List Char)}
    (hsource : source = before ++ Script.textFrom d run rest) (hrun : run = gone ++ kept)
    (hcut : ∀ cutFrom, Run.lineStart? ⟨run, before.isEmpty, false⟩ = some cutFrom →
      byteSize gone ≤ cutFrom) (done : List Stretch) :
    let tags := Script.tagsFrom d before run rest
    let layout := Layout.ofRuns before.isEmpty run (byteSize gone) tags
    ∃ trimmed placed,
      trim? source done.length (tags.map (·.1))
        (done ++ (Stretch.ofText (byteSize before) run).keptFrom (byteSize before + byteSize gone) ::
          tags.map fun entry => .ofText entry.1.span.stop entry.2) =
        some (done ++ trimmed, placed) ∧
      List.Forall₂ (Keeps source) trimmed (layout.head :: layout.rest.map (·.2)) ∧
      List.Forall₂ Indents placed (layout.rest.map (·.1)) := by
  induction rest generalizing d before run gone kept done with
  | nil =>
    have hsource' : source = before ++ run ++ [] := by rw [hsource, Script.textFrom, List.append_nil]
    exact ⟨_, [], rfl, .cons (keeps_uncut hsource' hrun) .nil, .nil⟩
  | cons entry rest ih =>
    obtain ⟨w, next⟩ := entry
    intro tags layout
    let tag := w.toTag d (before ++ run)
    let before' := before ++ run ++ w.text d
    let later := Script.tagsFrom w.after before' next rest
    have htail : source = before' ++ Script.textFrom w.after next rest := by
      rw [hsource, Script.textFrom]
      simp only [before', List.append_assoc]
    have hsource' : source = before' ++ next ++ Script.behind w.after rest := by
      rw [List.append_assoc, ← Script.textFrom_eq]
      exact htail
    have hbefore : source = before ++ run ++ (w.text d ++ Script.textFrom w.after next rest) := by
      rw [← List.append_assoc]
      exact htail
    let stretch := (Stretch.ofText (byteSize before) run).keptFrom (byteSize before + byteSize gone)
    have hstretch : stretch.Of before run := ⟨rfl, rfl, rfl⟩
    have hnext : (Stretch.ofText (byteSize before') next).Of before' next := ⟨rfl, rfl, rfl⟩
    have htag := cut?_eq hstretch hbefore hnext hsource' tag done
      (later.map fun entry => .ofText entry.1.span.stop entry.2)
    rw [← Layout.isEmpty_tagsFrom w.after before' next rest] at htag
    have hopens : before'.isEmpty = false := Layout.isEmpty_text _ _ _
    cases hcuts : tag.cuts? ⟨run, before.isEmpty, false⟩ ⟨next, false, later.isEmpty⟩ with
    | none =>
      obtain ⟨trimmed, placed, htrim, hkeeps, hplaced⟩ := @ih before' next w.after [] next htail rfl
        (fun _ _ => Nat.zero_le _) (done ++ [stretch])
      have hlayout : layout = _ := Layout.ofRuns_of_no_cuts hcuts
      rw [hlayout]
      rw [hopens] at hkeeps hplaced
      exact ⟨_, _, trim?_cons (htag.1 hcuts) htrim, .cons (keeps_uncut hbefore hrun) hkeeps,
        .cons ⟨rfl, fun _ => rfl⟩ hplaced⟩
    | some cuts =>
      obtain ⟨cutFrom, cutTo⟩ := cuts
      obtain ⟨hstart, hend⟩ := Tag.of_cuts? hcuts
      have hlayout : layout = _ := Layout.ofRuns_of_cuts hcuts
      obtain ⟨indentation, hcutTag, hindentation⟩ := htag.2 cutFrom cutTo hcuts
      have hle := hcut cutFrom hstart
      obtain ⟨head, margin, hhead, rfl⟩ := Run.exists_of_lineStart? hstart
      obtain ⟨tail, more, hmore, rfl⟩ := Run.exists_of_lineEnd? hend
      -- what is gone of the next run is not wanted by the tag behind it
      have hcut' : ∀ cutFrom, Run.lineStart? ⟨next, before'.isEmpty, false⟩ = some cutFrom →
          byteSize tail ≤ cutFrom := by
        intro cutFrom hnextStart
        rw [hopens] at hnextStart
        exact Run.lineEnd?_le_lineStart? hend hnextStart
      obtain ⟨trimmed, placed, htrim, hkeeps, hplaced⟩ := @ih before' next w.after tail more htail
        hmore hcut' (done ++ [stretch.keptTo (byteSize before + byteSize head)])
      have hkept := @keeps_middle _ _ _ _ (stretch.keptTo (byteSize before + byteSize head)) _ _ _ _
        ⟨rfl, rfl, rfl⟩ hbefore hrun hhead hle rfl rfl
      rw [hlayout]
      rw [hopens] at hkeeps hplaced
      exact ⟨_, _, trim?_cons hcutTag htrim, .cons hkept hkeeps,
        .cons ⟨rfl, hindentation⟩ hplaced⟩

/-! ## Nesting -/

/-- The tag stands in the source. -/
def Lies (source : List Char) (tag : Tag) : Prop :=
  ∃ before text after, source = before ++ text ++ after ∧ tag.span = .ofText before text

def Precedes (tag later : Tag) : Prop :=
  tag.span.stop ≤ later.span.start

theorem le_start_of_tagsFrom {d : Delimiters} {rest : List (WrittenTag × List Char)} :
    ∀ tag ∈ (Script.tagsFrom d before run rest).map (·.1), byteSize before ≤ tag.span.start := by
  induction rest generalizing d before run with
  | nil => nofun
  | cons entry rest ih =>
    obtain ⟨w, next⟩ := entry
    have hstart : byteSize before ≤ byteSize (before ++ run) := by
      rw [Text.byteSize_append]
      omega
    intro tag htag
    rcases List.mem_cons.1 htag with rfl | htag
    · exact hstart
    · have hlater := ih tag htag
      rw [Text.byteSize_append] at hlater
      omega

/-- The tags of a script stand in its print one behind the other. -/
theorem tagsFrom_lie {d : Delimiters} {rest : List (WrittenTag × List Char)}
    (hsource : source = before ++ Script.textFrom d run rest) :
    (∀ tag ∈ (Script.tagsFrom d before run rest).map (·.1), Lies source tag) ∧
      ((Script.tagsFrom d before run rest).map (·.1)).Pairwise Precedes := by
  induction rest generalizing d before run with
  | nil => exact ⟨nofun, .nil⟩
  | cons entry rest ih =>
    obtain ⟨w, next⟩ := entry
    have hsource' : source = before ++ run ++ w.text d ++ Script.textFrom w.after next rest := by
      rw [hsource, Script.textFrom]
      simp only [List.append_assoc]
    obtain ⟨hlies, hordered⟩ := ih hsource'
    refine ⟨?_, .cons le_start_of_tagsFrom hordered⟩
    intro tag htag
    rcases List.mem_cons.1 htag with rfl | htag
    · exact ⟨before ++ run, w.text d, _, hsource', rfl⟩
    · exact hlies tag htag

variable {name : Option String} {tag : Tag} {tree : Tree}

theorem Lies.isBoundary (h : Lies source tag) :
    Text.isBoundary tag.span.start source = true ∧ Text.isBoundary tag.span.stop source = true := by
  obtain ⟨front, text, back, rfl, hspan⟩ := h
  rw [hspan]
  refine ⟨Text.isBoundary_iff.2 ⟨front, text ++ back, List.append_assoc _ _ _, rfl⟩, ?_⟩
  exact Text.isBoundary_iff.2 ⟨front ++ text, back, rfl, rfl⟩

theorem Lies.error?_eq (h : Lies source tag) (fault : ParseFault) :
    error? source name fault tag.span.start =
      some ((Tree.faultAt tag fault).inSource source name) := by
  obtain ⟨front, text, back, hsource, hspan⟩ := h
  rw [List.append_assoc] at hsource
  rw [Tree.faultAt, hspan]
  exact error?_append hsource fault

/-- The source between a section's two tags is there to be cut out. -/
theorem close?_eq (hlies : Lies source tag)
    (hopen : ∀ entry ∈ tree.enclosing, Lies source entry.1 ∧ Precedes entry.1 tag) :
    close? source name tag tree =
      some ((Tree.close source tag tree).mapError (LocatedFault.inSource source name)) := by
  unfold close? Tree.close
  cases henclosing : tree.enclosing with
  | nil =>
    simp only [hlies.error?_eq]
    rfl
  | cons entry enclosing =>
    obtain ⟨opener, before⟩ := entry
    obtain ⟨hopener, hle⟩ := hopen (opener, before) (by rw [henclosing]; exact List.mem_cons_self)
    simp only [hlies.error?_eq,
      Text.slice?_of_isBoundary hle hopener.isBoundary.2 hlies.isBoundary.1]
    split <;> rfl

theorem addTag?_eq {entry : Tag × List Char} {placed : PlacedTag} (hentry : Indents entry placed)
    (hlies : Lies source placed.tag)
    (hopen : ∀ entry ∈ tree.enclosing, Lies source entry.1 ∧ Precedes entry.1 placed.tag) :
    addTag? source name entry.1 entry.2 tree =
      some ((tree.addTag source placed).mapError (LocatedFault.inSource source name)) := by
  rw [hentry.tag]
  unfold addTag? Tree.addTag
  cases hkind : placed.tag.kind with
  | closer =>
    simp only [hkind]
    exact close?_eq hlies hopen
  | inclusion =>
    simp only [hkind, hentry.indentation hkind]
    rfl
  | interpolation | opener | comment | setDelimiters =>
    simp only [hkind]
    rfl

theorem mem_of_addTag {placed : PlacedTag} {tree' : Tree}
    (h : tree.addTag source placed = .ok tree') :
    ∀ entry ∈ tree'.enclosing, entry ∈ tree.enclosing ∨ entry.1 = placed.tag := by
  unfold Tree.addTag at h
  cases hkind : placed.tag.kind with
  | closer =>
    simp only [hkind, Tree.close] at h
    cases henclosing : tree.enclosing with
    | nil =>
      rw [henclosing] at h
      cases h
    | cons entry enclosing =>
      rw [henclosing] at h
      simp only at h
      split at h
      · cases h
        exact fun entry hentry => .inl (List.mem_cons_of_mem _ hentry)
      · cases h
  | opener inverted =>
    simp only [hkind] at h
    cases h
    intro entry hentry
    rcases List.mem_cons.1 hentry with rfl | hentry
    · exact .inr rfl
    · exact .inl hentry
  | interpolation | inclusion | comment | setDelimiters =>
    simp only [hkind] at h
    cases h
    exact fun entry hentry => .inl hentry

theorem finish?_eq (hopen : ∀ entry ∈ tree.enclosing, Lies source entry.1) :
    finish? source name tree =
      some (tree.finish.mapError (LocatedFault.inSource source name)) := by
  unfold finish? Tree.finish
  cases henclosing : tree.enclosing with
  | nil => rfl
  | cons entry enclosing =>
    have hlies := hopen entry (by rw [henclosing]; exact List.mem_cons_self)
    simp only [hlies.error?_eq]
    rfl

/-- Tags that stand in the source one behind the other nest as the tree has it. -/
theorem build?_eq {items : List (PlacedTag × List Char)} {text : List Char}
    {trimmed : List Stretch} {entries : List (Tag × List Char)}
    (hkeeps : List.Forall₂ (Keeps source) trimmed (text :: items.map (·.2)))
    (hindents : List.Forall₂ Indents entries (items.map (·.1)))
    (hlies : ∀ tag ∈ items.map (·.1.tag), Lies source tag)
    (hordered : (items.map (·.1.tag)).Pairwise Precedes)
    (hopen : ∀ entry ∈ tree.enclosing,
      Lies source entry.1 ∧ ∀ tag ∈ items.map (·.1.tag), Precedes entry.1 tag) :
    build? source name tree trimmed entries =
      some ((Tree.build source { tree with nodes := Tree.addText text tree.nodes } items).mapError
        (LocatedFault.inSource source name)) := by
  induction items generalizing tree text trimmed entries with
  | nil =>
    cases hindents
    cases hkeeps with
    | cons hkeeps hnil =>
      cases hnil
      rw [build?, hkeeps.slice]
      exact finish?_eq fun entry hentry => (hopen entry hentry).1
  | cons item items ih =>
    cases hindents with
    | @cons entry _ entries _ hentry hindents =>
      cases hkeeps with
      | cons hkeeps hrest =>
        rw [List.map_cons, List.forall_mem_cons] at hlies
        rw [List.map_cons, List.pairwise_cons] at hordered
        let written : Tree := { tree with nodes := Tree.addText text tree.nodes }
        have hopen' : ∀ entry ∈ written.enclosing,
            Lies source entry.1 ∧ Precedes entry.1 item.1.tag :=
          fun entry hentry => ⟨(hopen entry hentry).1, (hopen entry hentry).2 _ List.mem_cons_self⟩
        rw [build?, hkeeps.slice]
        simp only [Option.bind_eq_bind, Option.bind_some]
        rw [addTag?_eq hentry hlies.1 hopen', Tree.build]
        cases hadd : written.addTag source item.1 with
        | error located => rfl
        | ok tree' =>
          refine ih hrest hindents hlies.2 hordered.2 ?_
          intro open' hopened
          rcases mem_of_addTag hadd open' hopened with hmem | htag
          · exact ⟨(hopen open' hmem).1,
              fun later hlater => (hopen open' hmem).2 later (List.mem_cons_of_mem _ hlater)⟩
          · rw [htag]
            exact ⟨hlies.1, hordered.1⟩

theorem ordered_of_keeps {trimmed : List Stretch} {texts : List (List Char)}
    (h : List.Forall₂ (Keeps source) trimmed texts) : ∀ stretch ∈ trimmed, stretch.Ordered := by
  induction h with
  | nil => nofun
  | cons hkeeps _ ih => exact List.forall_mem_cons.2 ⟨hkeeps.ordered, ih⟩

/-- A source that is scanned is trimmed and nested by its offsets as it is compiled. -/
theorem exists_of_scan {d : Delimiters} {scan : Scan}
    (hscan : Scan.ofSource d Position.start source = .ok scan) :
    ∃ trimmed entries,
      trim? source 0 scan.tags (stretchesFrom 0 scan.head scan.rest) = some (trimmed, entries) ∧
      (∀ stretch ∈ trimmed, stretch.Ordered) ∧
      build? source name ⟨[], []⟩ trimmed entries =
        some ((Template.compile source d).mapError (LocatedFault.inSource source name)) := by
  obtain ⟨rest, -, htext, htags⟩ := Scan.exists_script hscan [] rfl
  obtain ⟨trimmed, entries, htrim, hkeeps, hindents⟩ := @trim?_eq source [] scan.head d [] scan.head
    rest htext.symm rfl (fun _ _ => Nat.zero_le _) []
  obtain ⟨hlies, hordered⟩ := @tagsFrom_lie source [] scan.head d rest htext.symm
  rw [← htags] at htrim hkeeps hindents hlies hordered
  rw [← Layout.map_tag_ofRuns true scan.head 0] at hlies hordered
  refine ⟨trimmed, entries, htrim, ordered_of_keeps hkeeps, ?_⟩
  have hbuild := @build?_eq source name ⟨[], []⟩ _ _ _ _ hkeeps hindents hlies hordered nofun
  rw [hbuild, Template.compile, hscan]
  rfl

end Checked

theorem Template.parse_eq_compile (source : String) (name : Option String) (d : Delimiters) :
    parse source name d =
      ((compile source.toList d).mapError (LocatedFault.inSource source.toList name)).map
        (⟨name, ·⟩) := by
  rw [parse]
  cases compile source.toList d with
  | ok nodes => rfl
  | error located =>
    simp only [Except.mapError, LocatedFault.inSource, String.ofList_toList]
    rfl

theorem Checked.parse?_eq (source : String) (name : Option String) (d : Delimiters) :
    parse? source name d = some (Template.parse source name d) := by
  let cs := source.toList
  have hturns : turns? cs name (Text.byteSize cs + 1) (.start d) = _ :=
    @turns?_eq cs [] cs name d _ rfl (Nat.lt_succ_self _) [] []
  rw [Template.parse_eq_compile, parse?]
  simp only [Option.bind_eq_bind]
  rw [hturns]
  cases hscan : Scan.ofSource d (Position.start.after []) cs with
  | error located =>
    have hcompile : Template.compile cs d = .error located := by
      rw [Template.compile, show Scan.ofSource d Position.start cs = _ from hscan]
    rw [hcompile]
    rfl
  | ok found =>
    obtain ⟨trimmed, entries, htrim, -, hbuild⟩ := @exists_of_scan cs name d found hscan
    show (trim? cs 0 found.tags (stretchesFrom 0 found.head found.rest)).bind _ = _
    rw [htrim]
    show (build? cs name ⟨[], []⟩ trimmed entries).bind _ = _
    rw [hbuild]
    cases Template.compile cs d with
    | error located => rfl
    | ok nodes => rfl

/-- Compiling never leaves the domain of what it does, and it ends. `Checked.parse?` does all of
it by offsets, with a check on every cut, index and difference, and comes to what `parse` comes
to. On the way, every turn of the scan that is not the last one goes on behind the octet where it
began, with delimiters that can be in force; the scan is over after one turn more than the source
has octets at most; then there is one run more than tags; and the runs that are cut for
stand-alone tags keep a part of themselves that does not end before it begins. -/
theorem Template.parse_checked (source : String) (name : Option String) (d : Delimiters) :
    let cs := source.toList
    let scan count := Checked.turns? cs name count (.start d)
    (∀ count state, scan count = some (.going state) →
      state.Sound cs ∧ count ≤ state.pos ∧ ∃ turn, Checked.turn? cs name state = some turn ∧
        ∀ next, turn = .going next → state.pos < next.pos) ∧
    (∃ last, scan (Text.byteSize cs + 1) = some last ∧ ∀ state, last ≠ .going state) ∧
    (∀ stretches tags, scan (Text.byteSize cs + 1) = some (.ended stretches tags) →
      stretches.length = tags.length + 1 ∧ ∃ trimmed entries,
        Checked.trim? cs 0 tags stretches = some (trimmed, entries) ∧
        ∀ stretch ∈ trimmed, stretch.Ordered) ∧
    Checked.parse? source name d = some (parse source name d) := by
  intro cs scan
  have hturns : scan (Text.byteSize cs + 1) = _ := @Checked.turns?_eq cs [] cs name d _ rfl
    (Nat.lt_succ_self _) [] []
  refine ⟨fun count state h => Checked.sound_of_turns? h, ?_, ?_, ?_⟩
  · rw [hturns]
    cases Scan.ofSource d (Position.start.after []) cs with
    | error located => exact ⟨_, rfl, nofun⟩
    | ok found => exact ⟨_, rfl, nofun⟩
  · intro stretches tags hended
    rw [hturns] at hended
    cases hscan : Scan.ofSource d (Position.start.after []) cs with
    | error located =>
      rw [hscan] at hended
      cases hended
    | ok found =>
      rw [hscan] at hended
      cases hended
      obtain ⟨trimmed, entries, htrim, hordered, -⟩ := @Checked.exists_of_scan cs name d found hscan
      refine ⟨?_, trimmed, entries, htrim, hordered⟩
      simp [Checked.stretchesFrom, Scan.tags]
  · exact Checked.parse?_eq source name d

/-- Of a run between two stand-alone tags nothing is left. -/
theorem Template.parse_lines_checked :
    let cs := Script.lines.text .braces
    let scan := Script.lines.scan .braces
    let stretches := Checked.stretchesFrom 0 scan.head scan.rest
    let extent (stretch : Checked.Stretch) :=
      (stretch.start, stretch.keepFrom, stretch.keepTo, stretch.stop)
    Checked.turns? cs none (Text.byteSize cs + 1) (.start .braces) =
        some (.ended stretches scan.tags) ∧
      stretches.length = scan.tags.length + 1 ∧
      ∃ trimmed entries, Checked.trim? cs 0 scan.tags stretches = some (trimmed, entries) ∧
        (∀ stretch ∈ trimmed, stretch.Ordered) ∧
        trimmed.map extent = [(0, 0, 3, 5), (16, 19, 19, 20), (26, 27, 27, 27),
          (33, 33, 33, 33), (39, 39, 40, 41), (52, 52, 52, 52)] := by
  intro cs scan stretches extent
  have hscan : Scan.ofSource .braces .start cs = .ok scan := Scan.ofSource_text (by decide)
  have hturns := @Checked.turns?_eq cs [] cs none .braces _ rfl (Nat.lt_succ_self _) [] []
  rw [show Scan.ofSource .braces (Position.start.after []) cs = _ from hscan] at hturns
  obtain ⟨_, _, hended, _⟩ := parse_checked (String.ofList cs) none .braces
  rw [String.toList_ofList] at hended
  obtain ⟨hruns, trimmed, entries, htrim, hordered⟩ := hended stretches scan.tags hturns
  refine ⟨hturns, hruns, trimmed, entries, htrim, hordered, ?_⟩
  have hkept : (Checked.trim? cs 0 scan.tags stretches).map (fun trimmed => trimmed.1.map extent) =
      some [(0, 0, 3, 5), (16, 19, 19, 20), (26, 27, 27, 27), (33, 33, 33, 33), (39, 39, 40, 41),
        (52, 52, 52, 52)] := by decide +kernel
  rw [htrim] at hkept
  exact Option.some.inj hkept

end Mustache
