import ObjectModel.Occurrence
import ObjectModel.Slice
import ObjectModel.Text.Basic
import ObjectModel.Text.Blank

/-!
# Searching and splitting

Occurrences of one text in another, counted without overlap from the left, and
the operations that cut a text at them. A limit of `none` means no limit.
-/

namespace ObjectModel.Text

/-- What comes before and after the first occurrence of a text. -/
def cut? (sub cs : List Char) : Option (List Char × List Char) :=
  Occurrence.cut? (·.val.toUInt64) sub cs

def contains (sub cs : List Char) : Bool := (cut? sub cs).isSome

/-- One less, where there is a limit. -/
def spend (limit : Option Nat) : Option Nat := limit.map (· - 1)

/-- The parts between the leading occurrences of a non-empty text. -/
def pieces (sub : List Char) (limit : Option Nat) (cs : List Char) : List (List Char) :=
  if hs : limit = some 0 ∨ sub = [] then [cs]
  else
    match h : cut? sub cs with
    | none => [cs]
    | some (front, back) =>
      have : back.length < cs.length :=
        Occurrence.length_lt_of_cut? (fun he => hs (.inr he)) h
      front :: pieces sub (spend limit) back
termination_by cs.length

variable {sub cs front back : List Char} {limit : Option Nat}

theorem pieces_of_none (h : cut? sub cs = none) : pieces sub limit cs = [cs] := by
  rw [pieces]
  split
  · rfl
  · split
    · rfl
    · next found => cases h.symm.trans found

theorem pieces_of_some (hs : sub ≠ []) (hl : limit ≠ some 0)
    (h : cut? sub cs = some (front, back)) :
    pieces sub limit cs = front :: pieces sub (spend limit) back := by
  rw [pieces, dif_neg (not_or.2 ⟨hl, hs⟩)]
  split
  · next missing => cases h.symm.trans missing
  · next found =>
    cases h.symm.trans found
    rfl

/-- The empty text occurs before every character and at the end. -/
def countOccurrences (sub cs : List Char) : Nat :=
  if sub.isEmpty then cs.length + 1 else (pieces sub none cs).length - 1

/-- Puts a text before every character and at the end. -/
def interleave (new : List Char) : Option Nat → List Char → List Char
  | some 0, cs => cs
  | _, [] => new
  | limit, c :: cs => new ++ c :: interleave new (spend limit) cs

def replace (old new : List Char) (limit : Option Nat) (cs : List Char) : List Char :=
  if old.isEmpty then interleave new limit cs else new.intercalate (pieces old limit cs)

/-- Cuts at each separator, at most `limit` times. -/
def splitOn (sep : Char) : Option Nat → List Char → List (List Char)
  | _, [] => [[]]
  | limit, c :: cs =>
    if c = sep ∧ limit ≠ some 0 then [] :: splitOn sep (spend limit) cs
    else
      match splitOn sep limit cs with
      | [] => [[c]]
      | part :: parts => (c :: part) :: parts

theorem length_dropWhile_le {α : Type} (p : α → Bool) (xs : List α) :
    (xs.dropWhile p).length ≤ xs.length :=
  (List.dropWhile_sublist p).length_le

/-- The runs of non-blank characters. Once `limit` runs are cut, the rest of
the text is the last part, with its trailing blanks. -/
def splitBlank (limit : Option Nat) (cs : List Char) : List (List Char) :=
  match h : trimStart isBlank cs with
  | [] => []
  | c :: rest =>
    if limit = some 0 then [c :: rest]
    else
      have : ((c :: rest).dropWhile (!isBlank ·)).length < cs.length := by
        have hc : isBlank c = false := by
          have := List.head?_dropWhile_not isBlank cs
          simp only [trimStart] at h
          simpa [h] using this
        have hle := length_dropWhile_le isBlank cs
        simp only [trimStart] at h
        rw [h, List.length_cons] at hle
        have := length_dropWhile_le (!isBlank ·) rest
        simp only [List.dropWhile_cons, hc, Bool.not_false, ↓reduceIte]
        omega
      (c :: rest).takeWhile (!isBlank ·) ::
        splitBlank (spend limit) ((c :: rest).dropWhile (!isBlank ·))
termination_by cs.length

/-- The characters that optional code point bounds select, and the index of the
first of them; none when they would start past the end. -/
def window? (t : Text) (start stop : Option Int64) : Option (Nat × List Char) :=
  let lower := (start.map Int64.toInt).getD 0
  let upper := (stop.map Int64.toInt).getD t.count
  if (t.count : Int) < lower then none
  else
    let first := clampBound t.count lower
    let last := max (clampBound t.count upper) first
    let rest := t.chars.drop first
    some (first, if last = t.count then rest else rest.take (last - first))

/-- Code point index of the first occurrence within the bounds. -/
def find? (t : Text) (sub : List Char) (start stop : Option Int64) : Option Nat := do
  let (first, cs) ← t.window? start stop
  let (front, _) ← cut? sub cs
  return first + front.length

def countWithin (t : Text) (sub : List Char) (start stop : Option Int64) : Nat :=
  match t.window? start stop with
  | some (_, cs) => countOccurrences sub cs
  | none => 0

end ObjectModel.Text
