import Mustache.Text.Bytes

/-!
# Mustache.Proofs.Selection

Parts of a text by octets. `Text.select` keeps the characters whose octets a predicate admits,
whatever it is; cuts and slices are the selections by an interval.
-/

namespace Mustache
namespace Text

/-- The characters of a text at the octets that `keep` admits, when the text stands at
`offset`. -/
def select (keep : Nat → Bool) (offset : Nat) : List Char → List Char
  | [] => []
  | c :: cs =>
    if keep offset then c :: select keep (offset + c.utf8Size) cs
    else select keep (offset + c.utf8Size) cs

theorem select_append (keep : Nat → Bool) (offset : Nat) (cs ds : List Char) :
    select keep offset (cs ++ ds) =
      select keep offset cs ++ select keep (offset + byteSize cs) ds := by
  induction cs generalizing offset with
  | nil => rfl
  | cons c cs ih =>
    rw [List.cons_append, select, select, ih, byteSize, ← Nat.add_assoc]
    split <;> rfl

theorem select_congr {keep keep' : Nat → Bool} {offset : Nat} {cs : List Char}
    (h : ∀ o, offset ≤ o → o < offset + byteSize cs → keep o = keep' o) :
    select keep offset cs = select keep' offset cs := by
  induction cs generalizing offset with
  | nil => rfl
  | cons c cs ih =>
    have hc := c.utf8Size_pos
    rw [byteSize] at h
    rw [select, select, h offset (Nat.le_refl _) (by omega),
      ih fun o ho ho' => h o (by omega) (by omega)]

theorem select_none {offset : Nat} (cs : List Char) :
    select (fun _ => false) offset cs = [] := by
  induction cs generalizing offset with
  | nil => rfl
  | cons c cs ih =>
    rw [select, if_neg Bool.false_ne_true, ih]

theorem select_takeBytes (n offset : Nat) (cs : List Char) :
    select (· < offset + n) offset cs = takeBytes n cs := by
  induction cs generalizing n offset with
  | nil => rfl
  | cons c cs ih =>
    have hc := c.utf8Size_pos
    rw [select, takeBytes]
    by_cases hn : n = 0
    · subst hn
      have hnone : select (fun o => decide (o < offset + 0)) (offset + c.utf8Size) cs =
          select (fun _ => false) (offset + c.utf8Size) cs :=
        select_congr fun o ho _ => decide_eq_false (by omega)
      rw [hnone, select_none]
      simp
    · have hrest : select (fun o => decide (o < offset + n)) (offset + c.utf8Size) cs =
          select (fun o => decide (o < offset + c.utf8Size + (n - c.utf8Size)))
            (offset + c.utf8Size) cs :=
        select_congr fun o ho _ => decide_eq_decide.2 (by omega)
      rw [if_neg hn, if_pos (decide_eq_true (by omega)), hrest, ih]

/-- The octets from one place to another are a slice. -/
theorem select_slice {gone kept : List Char} (stop offset : Nat) :
    select (fun o => offset + byteSize gone ≤ o && o < offset + stop) offset (gone ++ kept) =
      slice (byteSize gone) stop (gone ++ kept) := by
  have hgone : select (fun o => offset + byteSize gone ≤ o && o < offset + stop) offset gone =
      select (fun _ => false) offset gone := by
    refine select_congr fun o _ ho => ?_
    rw [decide_eq_false (by omega), Bool.false_and]
  have hkept : select (fun o => offset + byteSize gone ≤ o && o < offset + stop)
      (offset + byteSize gone) kept =
      select (· < offset + byteSize gone + (stop - byteSize gone)) (offset + byteSize gone)
        kept := by
    refine select_congr fun o ho _ => ?_
    rw [decide_eq_true ho, Bool.true_and]
    exact decide_eq_decide.2 (by omega)
  rw [select_append, hgone, select_none, hkept, select_takeBytes, slice, dropBytes_byteSize,
    List.nil_append]

/-- A text around a stretch that goes as a whole, together with the octets from `lo` to `hi`. -/
theorem select_around {first lo hi offset : Nat} {later : Nat → Bool}
    {run stretch more : List Char} (hfirst : first ≤ offset + byteSize run)
    (hlo : lo ≤ offset + byteSize run) (hhi : offset + byteSize run + byteSize stretch ≤ hi)
    (hlater : ∀ o, later o = true → offset + byteSize run + byteSize stretch ≤ o) :
    select (fun o => first ≤ o && !((lo ≤ o && o < hi) || later o)) offset
        (run ++ stretch ++ more) =
      select (fun o => first ≤ o && o < lo) offset run ++
        select (fun o => hi ≤ o && !later o) (offset + byteSize run + byteSize stretch) more := by
  have hnot (o : Nat) (ho : o < offset + byteSize run + byteSize stretch) : later o = false := by
    cases hl : later o with
    | false => rfl
    | true =>
      have := hlater o hl
      omega
  have hrun : select (fun o => first ≤ o && !((lo ≤ o && o < hi) || later o)) offset run =
      select (fun o => first ≤ o && o < lo) offset run := by
    refine select_congr fun o _ ho => ?_
    have hhi' : o < hi := by omega
    rw [hnot o (by omega), decide_eq_true hhi', Bool.and_true, Bool.or_false, ← decide_not]
    congr 1
    exact decide_eq_decide.2 (by omega)
  have hstretch : select (fun o => first ≤ o && !((lo ≤ o && o < hi) || later o))
      (offset + byteSize run) stretch = select (fun _ => false) (offset + byteSize run) stretch := by
    refine select_congr fun o ho ho' => ?_
    have hlo' : lo ≤ o := by omega
    have hhi' : o < hi := by omega
    rw [decide_eq_true hlo', decide_eq_true hhi']
    simp
  have hmore : select (fun o => first ≤ o && !((lo ≤ o && o < hi) || later o))
      (offset + byteSize run + byteSize stretch) more =
      select (fun o => hi ≤ o && !later o) (offset + byteSize run + byteSize stretch) more := by
    refine select_congr fun o ho _ => ?_
    have hfirst' : first ≤ o := by omega
    have hlo' : lo ≤ o := by omega
    rw [decide_eq_true hfirst', decide_eq_true hlo', Bool.true_and, Bool.true_and, Bool.not_or,
      ← decide_not]
    congr 1
    exact decide_eq_decide.2 (by omega)
  rw [select_append, select_append, hrun, hstretch, select_none, List.append_nil,
    byteSize_append, ← Nat.add_assoc, hmore]

end Text
end Mustache
