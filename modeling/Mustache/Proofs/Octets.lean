import Mustache.Proofs.Trimming
import Mustache.Text.Bytes

/-!
# Mustache.Proofs.Octets

The octets of a text next to its characters. An octet below 0x80 stands for a character of its
own, so spaces, tabs and line ends can be looked for in either.
-/

namespace Mustache
namespace Text

def isSpace (c : Char) : Bool :=
  c == ' ' || c == '\t'

/-- Octets below 0x80 are characters, the others parts of one. -/
theorem utf8EncodeChar_of_mem {c : Char} {octet : UInt8} (h : octet ∈ String.utf8EncodeChar c)
    (ho : octet.toNat < 0x80) :
    String.utf8EncodeChar c = [octet] ∧ c.toNat = octet.toNat := by
  have hv : c.val.toNat = c.toNat := rfl
  unfold String.utf8EncodeChar at h ⊢
  simp only at h ⊢
  split at h
  · next hc =>
    rw [if_pos hc]
    simp only [List.mem_singleton] at h
    subst h
    refine ⟨rfl, ?_⟩
    rw [UInt8.toNat_ofNat']
    omega
  · exfalso
    split at h
    · simp only [List.mem_cons, List.not_mem_nil, or_false] at h
      rcases h with rfl | rfl <;> rw [UInt8.toNat_ofNat'] at ho <;> omega
    · split at h
      · simp only [List.mem_cons, List.not_mem_nil, or_false] at h
        rcases h with rfl | rfl | rfl <;> rw [UInt8.toNat_ofNat'] at ho <;> omega
      · simp only [List.mem_cons, List.not_mem_nil, or_false] at h
        rcases h with rfl | rfl | rfl | rfl <;> rw [UInt8.toNat_ofNat'] at ho <;> omega

theorem mem_utf8EncodeChar_iff {c a : Char} (ha : a.toNat < 0x80) :
    UInt8.ofNat a.toNat ∈ String.utf8EncodeChar c ↔ c = a := by
  have hn : (UInt8.ofNat a.toNat).toNat = a.toNat := by
    rw [UInt8.toNat_ofNat']
    omega
  constructor
  · intro h
    have := (utf8EncodeChar_of_mem h (by rw [hn]; exact ha)).2
    rw [← Char.ofNat_toNat c, this, hn, Char.ofNat_toNat]
  · rintro rfl
    have hc : c.val.toNat ≤ 0x7F := Nat.le_of_lt_succ ha
    unfold String.utf8EncodeChar
    simp only [if_pos hc]
    exact List.mem_singleton.2 rfl

theorem head_utf8EncodeChar (c : Char) :
    ∃ octet rest, String.utf8EncodeChar c = octet :: rest ∧
      ∀ a : Char, a.toNat < 0x80 → (octet = UInt8.ofNat a.toNat ↔ c = a) := by
  obtain ⟨octet, rest, hc⟩ := List.exists_cons_of_ne_nil (@String.utf8EncodeChar_ne_nil c)
  refine ⟨octet, rest, hc, fun a ha => ?_⟩
  rw [← mem_utf8EncodeChar_iff ha]
  constructor
  · rintro rfl
    rw [hc]
    exact List.mem_cons_self
  · intro h
    have hn : (UInt8.ofNat a.toNat).toNat < 0x80 := by
      rw [UInt8.toNat_ofNat']
      omega
    have := (utf8EncodeChar_of_mem h hn).1
    rw [hc] at this
    exact (List.cons.inj this).1

theorem isSpace_iff {c : Char} : isSpace c = true ↔ c = ' ' ∨ c = '\t' := by
  simp [isSpace]

theorem utf8EncodeChar_of_isSpace {c : Char} (h : isSpace c = true) :
    ∃ octet, String.utf8EncodeChar c = [octet] ∧ Trimmer.isSpace octet = true := by
  rcases isSpace_iff.1 h with rfl | rfl
  · exact ⟨0x20, rfl, rfl⟩
  · exact ⟨0x09, rfl, rfl⟩

theorem utf8EncodeChar_of_not_isSpace {c : Char} (h : isSpace c = false) :
    ∃ octet rest, String.utf8EncodeChar c = octet :: rest ∧ Trimmer.isSpace octet = false ∧
      (octet = 0x0A ↔ c = '\n') ∧ (octet = 0x0D ↔ c = '\r') := by
  obtain ⟨octet, rest, hc, ha⟩ := head_utf8EncodeChar c
  refine ⟨octet, rest, hc, ?_, ha '\n' (by decide), ha '\r' (by decide)⟩
  rw [← Bool.not_eq_true, Trimmer.isSpace_iff]
  rw [← Bool.not_eq_true, isSpace_iff] at h
  rintro (ho | ho)
  · exact h (.inl ((ha ' ' (by decide)).1 ho))
  · exact h (.inr ((ha '\t' (by decide)).1 ho))

/-! ## Texts -/

theorem toOctets_cons (c : Char) (cs : List Char) :
    toOctets (c :: cs) = String.utf8EncodeChar c ++ toOctets cs :=
  List.flatMap_cons

theorem toOctets_append (cs ds : List Char) :
    toOctets (cs ++ ds) = toOctets cs ++ toOctets ds :=
  List.flatMap_append

theorem length_toOctets (cs : List Char) : (toOctets cs).length = byteSize cs := by
  induction cs with
  | nil => rfl
  | cons c cs ih =>
    rw [toOctets_cons, List.length_append, String.length_utf8EncodeChar, ih, byteSize]

theorem lineFeed_mem_toOctets {cs : List Char} : 0x0A ∈ toOctets cs ↔ '\n' ∈ cs := by
  have h (c : Char) : 0x0A ∈ String.utf8EncodeChar c ↔ c = '\n' :=
    mem_utf8EncodeChar_iff (a := '\n') (by decide)
  simp [toOctets, List.mem_flatMap, h]

/-- Spaces and tabs at the start of a text are those at the start of its octets. -/
theorem span_toOctets (cs : List Char) :
    (toOctets cs).takeWhile Trimmer.isSpace = toOctets (cs.takeWhile isSpace) ∧
      (toOctets cs).dropWhile Trimmer.isSpace = toOctets (cs.dropWhile isSpace) := by
  induction cs with
  | nil => exact ⟨rfl, rfl⟩
  | cons c cs ih =>
    cases h : isSpace c with
    | true =>
      obtain ⟨octet, hc, ho⟩ := utf8EncodeChar_of_isSpace h
      rw [List.takeWhile_cons, List.dropWhile_cons, if_pos h, if_pos h, toOctets_cons,
        toOctets_cons, hc, List.singleton_append, List.singleton_append, List.takeWhile_cons,
        List.dropWhile_cons, if_pos ho, if_pos ho, ih.1, ih.2]
      exact ⟨rfl, rfl⟩
    | false =>
      obtain ⟨octet, rest, hc, ho, _⟩ := utf8EncodeChar_of_not_isSpace h
      rw [List.takeWhile_cons, List.dropWhile_cons, h, toOctets_cons, hc, List.cons_append,
        List.takeWhile_cons, List.dropWhile_cons, ho]
      exact ⟨rfl, by simp [toOctets_cons, hc]⟩

theorem all_isSpace_toOctets (cs : List Char) :
    (toOctets cs).all Trimmer.isSpace = cs.all isSpace := by
  induction cs with
  | nil => rfl
  | cons c cs ih =>
    rw [toOctets_cons, List.all_append, ih, List.all_cons]
    cases h : isSpace c with
    | true =>
      obtain ⟨octet, hc, ho⟩ := utf8EncodeChar_of_isSpace h
      simp [hc, ho]
    | false =>
      obtain ⟨octet, rest, hc, ho, _⟩ := utf8EncodeChar_of_not_isSpace h
      simp [hc, ho]

end Text
end Mustache
