import Mustache.Proofs.Octets

/-!
# Mustache.Proofs.Decoding

Reading the octets of a text back. The first octet of a character says how many more are due and
bounds the next one; each of those is taken, and the last one completes the character. So octets
that stand for a text are read as that text, and nothing in them is ill-formed.
-/

namespace Mustache
namespace Text
namespace Decoder

theorem toNat_ofNat {n : Nat} (h : n < 256) : (UInt8.ofNat n).toNat = n := by
  rw [UInt8.toNat_ofNat']
  exact Nat.mod_eq_of_lt h

/-! ## First octets -/

theorem run_one {n : Nat} (h : n < 128) (rest : List UInt8) :
    run .idle (UInt8.ofNat n :: rest) = some (Char.ofNat n) :: run .idle rest := by
  simp only [run, step, lead, toNat_ofNat (Nat.lt_trans h (by decide : 128 < 256))]
  rw [if_pos h]
  rfl

theorem run_two {m : Nat} (h : 2 ≤ m ∧ m < 32) (rest : List UInt8) :
    run .idle (UInt8.ofNat (m + 192) :: rest) = run (.inside m 1 0x80 0xBF) rest := by
  simp only [run, step, lead, toNat_ofNat (show m + 192 < 256 by omega)]
  rw [if_neg (by omega), if_neg (by omega), if_pos (by omega), Nat.add_sub_cancel]
  rfl

theorem run_three {m : Nat} (h : m < 16) (rest : List UInt8) :
    run .idle (UInt8.ofNat (m + 224) :: rest) =
      run (.inside m 2 (if m = 0 then 0xA0 else 0x80) (if m = 13 then 0x9F else 0xBF)) rest := by
  simp only [run, step, lead, toNat_ofNat (show m + 224 < 256 by omega)]
  rw [if_neg (by omega), if_neg (by omega), if_neg (by omega), if_pos (by omega),
    Nat.add_sub_cancel]
  simp only [Nat.add_eq_right, Nat.reduceEqDiff]
  rfl

theorem run_four {m : Nat} (h : m < 5) (rest : List UInt8) :
    run .idle (UInt8.ofNat (m + 240) :: rest) =
      run (.inside m 3 (if m = 0 then 0x90 else 0x80) (if m = 4 then 0x8F else 0xBF)) rest := by
  simp only [run, step, lead, toNat_ofNat (show m + 240 < 256 by omega)]
  rw [if_neg (by omega), if_neg (by omega), if_neg (by omega), if_neg (by omega),
    if_pos (by omega), Nat.add_sub_cancel]
  simp only [Nat.add_eq_right, Nat.reduceEqDiff]
  rfl

/-! ## Further octets -/

theorem run_inside {m : Nat} {low high : UInt8} (h : low.toNat ≤ m + 128 ∧ m + 128 ≤ high.toNat)
    (value left : Nat) (rest : List UInt8) :
    run (.inside value left low high) (UInt8.ofNat (m + 128) :: rest) =
      if left ≤ 1 then some (Char.ofNat (value * 64 + m)) :: run .idle rest
      else run (.inside (value * 64 + m) (left - 1) 0x80 0xBF) rest := by
  have hm : (UInt8.ofNat (m + 128)).toNat = m + 128 :=
    toNat_ofNat (Nat.lt_of_le_of_lt h.2 high.toNat_lt)
  have hbounds : low ≤ UInt8.ofNat (m + 128) ∧ UInt8.ofNat (m + 128) ≤ high := by
    rw [UInt8.le_iff_toNat_le, UInt8.le_iff_toNat_le, hm]
    exact h
  rw [run, step, if_pos hbounds, hm, Nat.add_sub_cancel]
  dsimp only
  split <;> rfl

theorem run_tail {m : Nat} (h : m < 64) (value left : Nat) (rest : List UInt8) :
    run (.inside value left 0x80 0xBF) (UInt8.ofNat (m + 128) :: rest) =
      if left ≤ 1 then some (Char.ofNat (value * 64 + m)) :: run .idle rest
      else run (.inside (value * 64 + m) (left - 1) 0x80 0xBF) rest := by
  refine run_inside ⟨?_, ?_⟩ value left rest
  · exact Nat.le_add_left ..
  · exact Nat.add_le_add_right (Nat.le_of_lt_succ h) 128

/-! ## Characters -/

theorem run_character (c : Char) (rest : List UInt8) :
    run .idle (String.utf8EncodeChar c ++ rest) = some c :: run .idle rest := by
  have hvalid : c.val.toNat.isValidChar := c.valid
  have hback : Char.ofNat c.val.toNat = c := c.ofNat_toNat
  generalize hv : c.val.toNat = v at hvalid hback
  simp only [String.utf8EncodeChar, hv]
  split
  · next h =>
    rw [List.singleton_append, run_one (Nat.lt_succ_of_le h), hback]
  · split
    · next h₁ h₂ =>
      have hvalue : v / 64 % 32 * 64 + v % 64 = v := by omega
      rw [List.cons_append, run_two (by omega), List.singleton_append, run_tail (by omega),
        if_pos (by decide), hvalue, hback]
    · split
      · next h₁ h₂ h₃ =>
        have hvalue : (v / 4096 % 16 * 64 + v / 64 % 64) * 64 + v % 64 = v := by omega
        rw [List.cons_append, run_three (by omega), List.cons_append, run_inside ?_,
          if_neg (by decide), List.singleton_append, run_tail (by omega), if_pos (by decide),
          hvalue, hback]
        -- the bounds keep out values that two octets hold, and halves of pairs
        constructor
        · split
          · exact Nat.add_le_add_right (show 32 ≤ v / 64 % 64 by omega) 128
          · exact Nat.le_add_left ..
        · split
          · exact Nat.add_le_add_right (show v / 64 % 64 ≤ 31 by omega) 128
          · exact Nat.add_le_add_right (show v / 64 % 64 ≤ 63 by omega) 128
      · next h₁ h₂ h₃ =>
        have hvalue : ((v / 262144 % 8 * 64 + v / 4096 % 64) * 64 + v / 64 % 64) * 64 + v % 64 =
            v := by omega
        rw [List.cons_append, run_four (by omega), List.cons_append, run_inside ?_,
          if_neg (by decide), List.cons_append, run_tail (by omega), if_neg (by decide),
          List.singleton_append, run_tail (by omega), if_pos (by decide), hvalue, hback]
        -- the bounds keep out values that three octets hold, and those past the last character
        constructor
        · split
          · exact Nat.add_le_add_right (show 16 ≤ v / 4096 % 64 by omega) 128
          · exact Nat.le_add_left ..
        · split
          · exact Nat.add_le_add_right (show v / 4096 % 64 ≤ 15 by omega) 128
          · exact Nat.add_le_add_right (show v / 4096 % 64 ≤ 63 by omega) 128

end Decoder

theorem run_toOctets (cs : List Char) : Decoder.run .idle (toOctets cs) = cs.map some := by
  induction cs with
  | nil => rfl
  | cons c cs ih => rw [toOctets_cons, Decoder.run_character, ih, List.map_cons]

/-- The octets of a text are read as that text, also where ill-formed ones would be replaced. -/
theorem ofOctetsLossy_toOctets (cs : List Char) : ofOctetsLossy (toOctets cs) = cs := by
  rw [ofOctetsLossy, run_toOctets, List.map_map]
  exact List.map_id cs

end Text
end Mustache
