import Mustache.Trimmer

/-!
# Mustache.Proofs.Trimming

What a trimmer allows, said of the run as a whole and not octet by octet.

* `leftDecision_scan`: the head of a run may go exactly when the run begins with spaces and tabs
  and then a line break; the boundary is the line feed.
* `rightDecision_scan_append`: with a line feed in the run, its tail may go exactly when only
  spaces and tabs follow the last line feed.
* `rightDecision_scan`: without one, exactly when the run is spaces and tabs throughout.
-/

namespace Mustache
namespace Trimmer

def isSpace (octet : UInt8) : Bool :=
  octet == 0x20 || octet == 0x09

/-- The line feed of the first line break, if only spaces and tabs stand before that break. -/
def firstBreak? (octets : List UInt8) : Option Nat :=
  let spaces := (octets.takeWhile isSpace).length
  match octets.dropWhile isSpace with
  | octet :: rest =>
    if octet = 0x0A then some spaces
    else if octet = 0x0D ∧ rest.head? = some 0x0A then some (spaces + 1)
    else none
  | [] => none

theorem isSpace_iff {octet : UInt8} : isSpace octet = true ↔ octet = 0x20 ∨ octet = 0x09 := by
  simp [isSpace]

/-! ## One octet -/

/-- An octet is read as such when no carriage return is pending. -/
theorem advance_of_idle {t : Trimmer} (hp : t.pendingReturn = false) (octet : UInt8) :
    t.advance octet = { t.read octet with seen := t.seen + 1 } := by
  obtain ⟨seen, pending, first, last⟩ := t
  cases hp
  simp [advance]

/-- A pending carriage return is content when no line feed follows. -/
theorem advance_of_pending {t : Trimmer} (hp : t.pendingReturn = true) {octet : UInt8}
    (h : octet ≠ 0x0A) :
    t.advance octet =
      { ({ t with pendingReturn := false } : Trimmer).content.read octet with
        seen := t.seen + 1 } := by
  simp [advance, hp, h]

theorem advance_lineFeed (t : Trimmer) :
    t.advance 0x0A = { t.lineBreak with seen := t.seen + 1, pendingReturn := false } := by
  obtain ⟨seen, pending, first, last⟩ := t
  cases pending <;> rfl

theorem seen_advance (t : Trimmer) (octet : UInt8) : (t.advance octet).seen = t.seen + 1 := by
  by_cases h : octet = 0x0A
  · rw [h, advance_lineFeed]
  · cases hp : t.pendingReturn with
    | false => rw [advance_of_idle hp]
    | true => rw [advance_of_pending hp h]

theorem advance_space {t : Trimmer} {octet : UInt8} (hp : t.pendingReturn = false)
    (h : isSpace octet = true) : t.advance octet = { t with seen := t.seen + 1 } := by
  rw [advance_of_idle hp]
  rcases isSpace_iff.1 h with rfl | rfl <;> rfl

theorem first_content {t : Trimmer} (h : t.first ≠ .pending) : t.content.first = t.first := by
  simp only [content, if_neg h]
  split <;> rfl

theorem first_content_of_pending {t : Trimmer} (h : t.first = .pending) :
    t.content.first = .barred := by
  simp only [content, if_pos h]

theorem first_read {t : Trimmer} (h : t.first ≠ .pending) (octet : UInt8) :
    (t.read octet).first = t.first := by
  simp only [read, lineBreak, if_neg h]
  split
  · rfl
  · split
    · rfl
    · split
      · rfl
      · exact first_content h

/-- Once something is known of the first line break, nothing changes it. -/
theorem first_advance {t : Trimmer} (h : t.first ≠ .pending) (octet : UInt8) :
    (t.advance octet).first = t.first := by
  by_cases hlf : octet = 0x0A
  · rw [hlf, advance_lineFeed]
    simp only [lineBreak, if_neg h]
  · cases hp : t.pendingReturn with
    | false =>
      rw [advance_of_idle hp]
      exact first_read h octet
    | true =>
      rw [advance_of_pending hp hlf]
      have hc := @first_content { t with pendingReturn := false } h
      exact (first_read (by rw [hc]; exact h) octet).trans hc

/-! ## Stretches -/

theorem seen_foldl (t : Trimmer) (octets : List UInt8) :
    (octets.foldl advance t).seen = t.seen + octets.length := by
  induction octets generalizing t with
  | nil => rfl
  | cons octet octets ih =>
    rw [List.foldl_cons, ih, seen_advance, List.length_cons]
    omega

theorem first_foldl {t : Trimmer} (h : t.first ≠ .pending) (octets : List UInt8) :
    (octets.foldl advance t).first = t.first := by
  induction octets generalizing t with
  | nil => rfl
  | cons octet octets ih =>
    have ha := first_advance h octet
    rw [List.foldl_cons, ih (by rw [ha]; exact h), ha]

theorem foldl_spaces {t : Trimmer} {octets : List UInt8} (hp : t.pendingReturn = false)
    (h : octets.all isSpace = true) :
    octets.foldl advance t = { t with seen := t.seen + octets.length } := by
  induction octets generalizing t with
  | nil => rfl
  | cons octet octets ih =>
    simp only [List.all_cons, Bool.and_eq_true] at h
    rw [List.foldl_cons, advance_space hp h.1,
      @ih { t with seen := t.seen + 1 } hp h.2, List.length_cons, Nat.add_assoc, Nat.add_comm 1]

/-- Spaces and tabs at the start of a run leave everything open. -/
theorem scan_spaces {spaces : List UInt8} (h : spaces.all isSpace = true) :
    scan spaces = { start with seen := spaces.length } := by
  rw [scan, foldl_spaces rfl h]
  simp [start]

/-! ## The left decision -/

/-- What an octet other than a space or tab does to the first line break, with the octet
behind it. -/
theorem first_foldl_cons {t : Trimmer} (hp : t.pendingReturn = false) (hf : t.first = .pending)
    {octet : UInt8} (ho : isSpace octet = false) (rest : List UInt8) :
    ((octet :: rest).foldl advance t).first =
      if octet = 0x0A then .found t.seen
      else if octet = 0x0D then
        match rest with
        | [] => .pending
        | next :: _ => if next = 0x0A then .found (t.seen + 1) else .barred
      else .barred := by
  rw [← Bool.not_eq_true, isSpace_iff] at ho
  rw [List.foldl_cons, advance_of_idle hp]
  by_cases hlf : octet = 0x0A
  · rw [if_pos hlf, first_foldl (by simp [read, lineBreak, hlf, hf])]
    simp [read, lineBreak, hlf, hf]
  · rw [if_neg hlf]
    by_cases hcr : octet = 0x0D
    · rw [if_pos hcr]
      cases rest with
      | nil => simp [read, hcr, hf]
      | cons next rest =>
        let u : Trimmer := { t.read octet with seen := t.seen + 1 }
        have hu : u = ⟨t.seen + 1, true, .pending, t.last⟩ := by simp [u, read, hcr, hf]
        show ((next :: rest).foldl advance u).first = if next = 0x0A then _ else _
        rw [List.foldl_cons, hu]
        by_cases hn : next = 0x0A
        · rw [if_pos hn, hn, advance_lineFeed, first_foldl (by simp [lineBreak])]
          rfl
        · -- the return was content, whatever comes next
          have hb : (advance ⟨t.seen + 1, true, .pending, t.last⟩ next).first = .barred := by
            rw [advance_of_pending rfl hn]
            exact first_read (by rw [first_content_of_pending rfl]; nofun) next
          rw [if_neg hn, first_foldl (by rw [hb]; nofun), hb]
    · have hb : (t.read octet).first = .barred := by
        simp only [read, if_neg hcr, if_neg hlf, if_neg ho]
        exact first_content_of_pending hf
      rw [if_neg hcr, first_foldl (by simp [hb])]
      exact hb

theorem leftDecision_scan (octets : List UInt8) :
    (scan octets).leftDecision =
      match firstBreak? octets with
      | some index => .allow ⟨index, true⟩
      | none => .preserve := by
  have hspaces : (octets.takeWhile isSpace).all isSpace = true := List.all_takeWhile
  have hscan : scan octets =
      (octets.dropWhile isSpace).foldl advance (scan (octets.takeWhile isSpace)) := by
    rw [scan, scan, ← List.foldl_append, List.takeWhile_append_dropWhile]
  rw [hscan, scan_spaces hspaces, firstBreak?]
  cases hd : octets.dropWhile isSpace with
  | nil => rfl
  | cons octet rest =>
    have ho : isSpace octet = false := by
      have := List.head?_dropWhile_not isSpace octets
      rw [hd] at this
      simpa using this
    rw [leftDecision, first_foldl_cons rfl rfl ho]
    by_cases hlf : octet = 0x0A
    · simp [hlf]
    · by_cases hcr : octet = 0x0D
      · cases rest with
        | nil => simp [hcr]
        | cons next rest => by_cases hn : next = 0x0A <;> simp [hcr, hn]
      · simp [hlf, hcr]

/-! ## The right decision -/

/-- Content leaves the last line break alone, unless blanks alone followed it. -/
theorem last_content {t : Trimmer} (h : ∀ index, t.last ≠ .found index) :
    t.content.last = t.last := by
  unfold content
  split
  · rfl
  · split
    · rfl
    · cases hl : t.last with
      | absent => contradiction
      | barred => rfl
      | found index => exact absurd hl (h index)

theorem last_content_of_found {t : Trimmer} {index : Nat} (hf : t.first ≠ .pending)
    (h : t.last = .found index) : t.content.last = .barred := by
  simp [content, hf, h]

theorem last_read {t : Trimmer} (h : ∀ index, t.last ≠ .found index) {octet : UInt8}
    (ho : octet ≠ 0x0A) : (t.read octet).last = t.last := by
  simp only [read, if_neg ho]
  split
  · rfl
  · split
    · rfl
    · exact last_content h

theorem last_advance {t : Trimmer} (h : ∀ index, t.last ≠ .found index) {octet : UInt8}
    (ho : octet ≠ 0x0A) : (t.advance octet).last = t.last := by
  cases hp : t.pendingReturn with
  | false =>
    rw [advance_of_idle hp]
    exact last_read h ho
  | true =>
    rw [advance_of_pending hp ho]
    have hc := @last_content { t with pendingReturn := false } h
    exact (last_read (by rw [hc]; exact h) ho).trans hc

theorem last_foldl {t : Trimmer} (h : ∀ index, t.last ≠ .found index) {octets : List UInt8}
    (ho : 0x0A ∉ octets) : (octets.foldl advance t).last = t.last := by
  induction octets generalizing t with
  | nil => rfl
  | cons octet octets ih =>
    simp only [List.mem_cons, not_or] at ho
    have ha := last_advance h (Ne.symm ho.1)
    rw [List.foldl_cons, ih (by rw [ha]; exact h) ho.2, ha]

/-- Behind a line break, anything but blanks ends in a pending carriage return or bars the
tail. -/
theorem barred_foldl_cons {t : Trimmer} {index : Nat} (hp : t.pendingReturn = false)
    (hf : t.first ≠ .pending) (hl : t.last = .found index) {octet : UInt8}
    (ho : isSpace octet = false) {rest : List UInt8} (hr : 0x0A ∉ octet :: rest) :
    ((octet :: rest).foldl advance t).pendingReturn = true ∨
      ((octet :: rest).foldl advance t).last = .barred := by
  rw [← Bool.not_eq_true, isSpace_iff] at ho
  simp only [List.mem_cons, not_or] at hr
  have hlf : octet ≠ 0x0A := Ne.symm hr.1
  rw [List.foldl_cons, advance_of_idle hp]
  by_cases hcr : octet = 0x0D
  · cases rest with
    | nil => simp [read, hcr]
    | cons next rest =>
      right
      simp only [List.mem_cons, not_or] at hr
      have hread : ({ t.read octet with seen := t.seen + 1 } : Trimmer) =
          ⟨t.seen + 1, true, t.first, t.last⟩ := by simp [read, hcr]
      have hc := @last_content_of_found ⟨t.seen + 1, false, t.first, t.last⟩ index hf hl
      have ha : (advance ⟨t.seen + 1, true, t.first, t.last⟩ next).last = .barred := by
        rw [advance_of_pending rfl (Ne.symm hr.2.1)]
        exact (last_read (by rw [hc]; nofun) (Ne.symm hr.2.1)).trans hc
      rw [hread, List.foldl_cons, last_foldl (by rw [ha]; nofun) hr.2.2, ha]
  · right
    have hb : (t.read octet).last = .barred := by
      simp only [read, if_neg hcr, if_neg hlf, if_neg ho]
      exact last_content_of_found hf hl
    rw [last_foldl (by simp [hb]) hr.2]
    exact hb

theorem rightDecision_of_pending {t : Trimmer} (h : t.pendingReturn = true) :
    t.rightDecision = .preserve := by
  rw [rightDecision, if_pos h]

theorem rightDecision_of_barred {t : Trimmer} (h : t.last = .barred) :
    t.rightDecision = .preserve := by
  simp [rightDecision, h]

/-- A run that is not blank is the blanks at its start and what follows them. -/
theorem exists_content {octets : List UInt8} (h : octets.all isSpace = false) :
    ∃ spaces octet rest, octets = spaces ++ octet :: rest ∧ spaces.all isSpace = true ∧
      isSpace octet = false := by
  induction octets with
  | nil => cases h
  | cons octet octets ih =>
    by_cases ho : isSpace octet = true
    · rw [List.all_cons, ho, Bool.true_and] at h
      obtain ⟨spaces, o, rest, rfl, hs, hn⟩ := ih h
      exact ⟨octet :: spaces, o, rest, rfl, by simp [ho, hs], hn⟩
    · exact ⟨[], octet, octets, rfl, rfl, by simpa using ho⟩

theorem rightDecision_scan_append {head tail : List UInt8} (h : 0x0A ∉ tail) :
    (scan (head ++ 0x0A :: tail)).rightDecision =
      if tail.all isSpace then .allow ⟨head.length + 1, true⟩ else .preserve := by
  let t : Trimmer := (scan head).advance 0x0A
  have hscan : scan (head ++ 0x0A :: tail) = tail.foldl advance t := by
    rw [scan, List.foldl_append, List.foldl_cons]
    rfl
  have hp : t.pendingReturn = false := by
    simp only [t, advance_lineFeed]
  have hl : t.last = .found head.length := by
    have hs : (scan head).seen = head.length := by
      rw [scan, seen_foldl]
      simp [start]
    simp only [t, advance_lineFeed, lineBreak, hs]
  have hf : t.first ≠ .pending := by
    simp only [t, advance_lineFeed, lineBreak]
    split
    · nofun
    · assumption
  rw [hscan]
  cases hall : tail.all isSpace with
  | true =>
    rw [foldl_spaces hp hall]
    simp [rightDecision, hp, hl]
  | false =>
    obtain ⟨spaces, octet, rest, rfl, hs, ho⟩ := exists_content hall
    have hmem : 0x0A ∉ octet :: rest := fun hm => h (List.mem_append_right _ hm)
    rw [List.foldl_append, foldl_spaces hp hs]
    have hb := @barred_foldl_cons { t with seen := t.seen + spaces.length } _ hp hf hl octet ho
      rest hmem
    rcases hb with hb | hb
    · exact rightDecision_of_pending hb
    · exact rightDecision_of_barred hb

theorem rightDecision_scan {octets : List UInt8} (h : 0x0A ∉ octets) :
    (scan octets).rightDecision =
      if octets.all isSpace then .allow ⟨0, false⟩ else .preserve := by
  cases hall : octets.all isSpace with
  | true =>
    rw [scan_spaces hall]
    rfl
  | false =>
    have hl : (scan octets).last = .absent := last_foldl (by simp [start]) h
    obtain ⟨spaces, octet, rest, rfl, hs, ho⟩ := exists_content hall
    have hscan : scan (spaces ++ octet :: rest) = (octet :: rest).foldl advance (scan spaces) := by
      rw [scan, scan, List.foldl_append]
    have hmem : 0x0A ∉ octet :: rest := fun hm => h (List.mem_append_right _ hm)
    simp only [List.mem_cons, not_or] at hmem
    have hlf : octet ≠ 0x0A := Ne.symm hmem.1
    rw [scan_spaces hs] at hscan
    have hf := @first_foldl_cons { start with seen := spaces.length } rfl rfl octet ho rest
    rw [← hscan, if_neg hlf] at hf
    by_cases hcr : octet = 0x0D
    · cases rest with
      | nil =>
        -- the return is still pending
        have hp : (scan (spaces ++ [octet])).pendingReturn = true := by
          rw [hscan, hcr]
          rfl
        exact rightDecision_of_pending hp
      | cons next rest =>
        simp only [List.mem_cons, not_or] at hmem
        have hn : next ≠ 0x0A := Ne.symm hmem.2.1
        simp only [if_pos hcr, if_neg hn] at hf
        simp [rightDecision, hl, hf]
    · rw [if_neg hcr] at hf
      simp [rightDecision, hl, hf]

end Trimmer
end Mustache
