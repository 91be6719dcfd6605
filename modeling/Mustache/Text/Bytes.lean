/-!
# Mustache.Text.Bytes

Text as UTF-8 octets: sizes and cuts measured in octets, and reading octets back as text, both
strictly and with a replacement character for each ill-formed stretch.
-/

namespace Mustache
namespace Text

/-! ## Measures and cuts -/

def byteSize : List Char → Nat
  | [] => 0
  | c :: cs => c.utf8Size + byteSize cs

theorem byteSize_append (cs ds : List Char) :
    byteSize (cs ++ ds) = byteSize cs + byteSize ds := by
  induction cs with
  | nil => exact (Nat.zero_add _).symm
  | cons c cs ih => rw [List.cons_append, byteSize, byteSize, ih, Nat.add_assoc]

def toOctets (cs : List Char) : List UInt8 :=
  cs.flatMap String.utf8EncodeChar

/-- The characters that start before octet `n`. -/
def takeBytes (n : Nat) : List Char → List Char
  | [] => []
  | c :: cs => if n = 0 then [] else c :: takeBytes (n - c.utf8Size) cs

/-- The characters that start at octet `n` or later. -/
def dropBytes (n : Nat) : List Char → List Char
  | [] => []
  | c :: cs => if n = 0 then c :: cs else dropBytes (n - c.utf8Size) cs

/-- The characters that start at octet `start` or later and before octet `stop`. -/
def slice (start stop : Nat) (cs : List Char) : List Char :=
  takeBytes (stop - start) (dropBytes start cs)

theorem takeBytes_append_dropBytes (n : Nat) (cs : List Char) :
    takeBytes n cs ++ dropBytes n cs = cs := by
  induction cs generalizing n with
  | nil => rfl
  | cons c cs ih =>
    unfold takeBytes dropBytes
    split
    · rfl
    · rw [List.cons_append, ih]

@[simp] theorem takeBytes_zero (cs : List Char) : takeBytes 0 cs = [] := by
  cases cs <;> rfl

@[simp] theorem dropBytes_zero (cs : List Char) : dropBytes 0 cs = cs := by
  cases cs <;> rfl

theorem takeBytes_append (n : Nat) (cs ds : List Char) :
    takeBytes (byteSize cs + n) (cs ++ ds) = cs ++ takeBytes n ds := by
  induction cs with
  | nil => rw [byteSize, Nat.zero_add]; rfl
  | cons c cs ih =>
    have hc := c.utf8Size_pos
    rw [List.cons_append, takeBytes, byteSize, if_neg (by omega), Nat.add_assoc,
      Nat.add_sub_cancel_left, ih, List.cons_append]

theorem dropBytes_append (n : Nat) (cs ds : List Char) :
    dropBytes (byteSize cs + n) (cs ++ ds) = dropBytes n ds := by
  induction cs with
  | nil => rw [byteSize, Nat.zero_add]; rfl
  | cons c cs ih =>
    have hc := c.utf8Size_pos
    rw [List.cons_append, dropBytes, byteSize, if_neg (by omega), Nat.add_assoc,
      Nat.add_sub_cancel_left, ih]

theorem takeBytes_byteSize (cs ds : List Char) : takeBytes (byteSize cs) (cs ++ ds) = cs := by
  have h := takeBytes_append 0 cs ds
  rwa [Nat.add_zero, takeBytes_zero, List.append_nil] at h

theorem dropBytes_byteSize (cs ds : List Char) : dropBytes (byteSize cs) (cs ++ ds) = ds := by
  have h := dropBytes_append 0 cs ds
  rwa [Nat.add_zero, dropBytes_zero] at h

/-- Cutting at the sizes of the parts of a text gives its middle part. -/
theorem slice_append (cs ds es : List Char) :
    slice (byteSize cs) (byteSize cs + byteSize ds) (cs ++ ds ++ es) = ds := by
  rw [slice, List.append_assoc, dropBytes_byteSize, Nat.add_sub_cancel_left, takeBytes_byteSize]

theorem slice_byteSize {cs gone kept : List Char} (h : cs = gone ++ kept) :
    slice (byteSize gone) (byteSize cs) cs = dropBytes (byteSize gone) cs := by
  subst h
  have hs := slice_append gone kept []
  rw [List.append_nil] at hs
  rw [dropBytes_byteSize, byteSize_append, hs]

theorem takeBytes_of_le {n : Nat} {cs : List Char} (h : n ≤ byteSize cs) (ds : List Char) :
    takeBytes n (cs ++ ds) = takeBytes n cs := by
  induction cs generalizing n with
  | nil =>
    obtain rfl := Nat.le_zero.1 h
    rw [takeBytes_zero, takeBytes_zero]
  | cons c cs ih =>
    rw [byteSize] at h
    rw [List.cons_append, takeBytes, takeBytes, ih (by omega)]

/-- Cuts inside a part of a text are cuts of that part. -/
theorem slice_of_middle {n : Nat} (gone cs ds rest : List Char)
    (h : n ≤ byteSize (cs ++ ds)) :
    slice (byteSize gone + byteSize cs) (byteSize gone + n) (gone ++ (cs ++ ds) ++ rest) =
      slice (byteSize cs) n (cs ++ ds) := by
  have hsplit : gone ++ (cs ++ ds) ++ rest = (gone ++ cs) ++ (ds ++ rest) := by
    simp only [List.append_assoc]
  have hle : n - byteSize cs ≤ byteSize ds := by
    rw [byteSize_append] at h
    omega
  rw [slice, slice, hsplit, ← byteSize_append, dropBytes_byteSize, dropBytes_byteSize,
    byteSize_append, Nat.add_sub_add_left, takeBytes_of_le hle]

/-! ## Reading octets -/

/-- Inside a character or between two: what the next octet has to be. -/
inductive Decoder where
  /-- Between two characters. -/
  | idle
  /-- `left` more octets are due, the next one in `[low, high]`; `value` holds the bits so far. -/
  | inside (value left : Nat) (low high : UInt8)

namespace Decoder

/-- Reads the first octet of a character; `none` marks an ill-formed octet. -/
def lead (octet : UInt8) : List (Option Char) × Decoder :=
  let n := octet.toNat
  if n < 0x80 then ([some (Char.ofNat n)], .idle)
  else if n < 0xC2 then ([none], .idle)
  else if n < 0xE0 then ([], .inside (n - 0xC0) 1 0x80 0xBF)
  else if n < 0xF0 then
    let low := if n = 0xE0 then 0xA0 else 0x80
    let high := if n = 0xED then 0x9F else 0xBF
    ([], .inside (n - 0xE0) 2 low high)
  else if n < 0xF5 then
    let low := if n = 0xF0 then 0x90 else 0x80
    let high := if n = 0xF4 then 0x8F else 0xBF
    ([], .inside (n - 0xF0) 3 low high)
  else ([none], .idle)

/-- Reads one octet. An octet that cannot go on the open character ends an ill-formed stretch
and is read again as a first octet. -/
def step : Decoder → UInt8 → List (Option Char) × Decoder
  | .idle, octet => lead octet
  | .inside value left low high, octet =>
    if low ≤ octet ∧ octet ≤ high then
      let value := value * 0x40 + (octet.toNat - 0x80)
      if left ≤ 1 then ([some (Char.ofNat value)], .idle)
      else ([], .inside value (left - 1) 0x80 0xBF)
    else
      let (read, next) := lead octet
      (none :: read, next)

/-- Reads octets to their end; a character left open there is one ill-formed stretch. -/
def run : Decoder → List UInt8 → List (Option Char)
  | .idle, [] => []
  | .inside .., [] => [none]
  | state, octet :: octets =>
    let (read, next) := step state octet
    read ++ run next octets

end Decoder

def ofOctets? (octets : List UInt8) : Option (List Char) :=
  (Decoder.run .idle octets).mapM id

/-- The text of any octets: each ill-formed stretch becomes one U+FFFD. -/
def ofOctetsLossy (octets : List UInt8) : List Char :=
  (Decoder.run .idle octets).map fun c => c.getD (Char.ofNat 0xFFFD)

end Text
end Mustache
