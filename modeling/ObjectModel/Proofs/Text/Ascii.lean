import ObjectModel.Text.Blank

/-!
# The letters of ASCII, and trimming

What changing the case of a letter does to its number, and what trimming
leaves.
-/

namespace ObjectModel.Text

theorem toNat_toLower (c : Char) :
    c.toLower.toNat = if 65 ≤ c.toNat ∧ c.toNat ≤ 90 then c.toNat + 32 else c.toNat := by
  have upper_iff : c.val ≥ 'A'.val ∧ c.val ≤ 'Z'.val ↔ 65 ≤ c.toNat ∧ c.toNat ≤ 90 := Iff.rfl
  have sum : (c.val + ('a'.val - 'A'.val)).toNat = (c.toNat + 32) % 2 ^ 32 := UInt32.toNat_add ..
  delta Char.toLower
  simp only [upper_iff]
  split
  · rw [Char.toNat, sum]
    omega
  · rfl

theorem toNat_toUpper (c : Char) :
    c.toUpper.toNat = if 97 ≤ c.toNat ∧ c.toNat ≤ 122 then c.toNat - 32 else c.toNat := by
  have lower_iff : 'a'.val ≤ c.val ∧ c.val ≤ 'z'.val ↔ 97 ≤ c.toNat ∧ c.toNat ≤ 122 := Iff.rfl
  have sum : (c.val + ('A'.val - 'a'.val)).toNat = (c.toNat + 4294967264) % 2 ^ 32 :=
    UInt32.toNat_add ..
  delta Char.toUpper
  simp only [lower_iff]
  split
  · rw [Char.toNat, sum]
    omega
  · rfl

/-- No visible character of ASCII is blank. -/
theorem isBlank_of_visible {c : Char} (h : 0x21 ≤ c.toNat ∧ c.toNat ≤ 0x7E) :
    isBlank c = false := by
  simp only [isBlank, Bool.or_eq_false_iff, Bool.and_eq_false_iff, decide_eq_false_iff_not,
    beq_eq_false_iff_ne]
  omega

theorem isBlank_toLower (c : Char) : isBlank c.toLower = isBlank c := by
  have lowered := toNat_toLower c
  split at lowered
  · rw [isBlank_of_visible (by omega), isBlank_of_visible (by omega)]
  · rw [isBlank, lowered, ← isBlank]

variable {p : Char → Bool} {cs : List Char}

theorem dropWhile_eq_self (h : ∀ c ∈ cs, p c = false) : cs.dropWhile p = cs := by
  cases cs with
  | nil => rfl
  | cons c cs => rw [List.dropWhile_cons_of_neg (by simp [h c])]

/-- Only characters of the class are trimmed. -/
theorem trim_eq_self (h : ∀ c ∈ cs, p c = false) : trim p cs = cs := by
  rw [trim, trimStart, trimEnd, dropWhile_eq_self h,
    dropWhile_eq_self fun c hc => h c (List.mem_reverse.1 hc), List.reverse_reverse]

/-- What fills a text on the left is trimmed. -/
theorem trim_replicate_append {fill : Char} (hfill : p fill = true) (n : Nat)
    (h : ∀ c ∈ cs, p c = false) : trim p (List.replicate n fill ++ cs) = cs := by
  have started : trimStart p (List.replicate n fill ++ cs) = trimStart p cs := by
    induction n with
    | zero => rfl
    | succ n ih =>
      rw [List.replicate_succ, List.cons_append, trimStart, List.dropWhile_cons_of_pos hfill]
      exact ih
  rw [trim, started]
  exact trim_eq_self h

end ObjectModel.Text
