import ObjectModel.Call.Construct
import ObjectModel.Proofs.Numeral.Reading

/-!
# What is read is a numeral

The loop over the digits keeps track of what it has read: nothing, digits with
single underscores between them, or those and an underscore more. So whatever is
read as a magnitude is a numeral of the grammar, and what is no numeral is
refused as such, also behind digits that no word holds.

Main statement: `Construct.parsed_iff_spells`.
-/

namespace ObjectModel

namespace Numeral

variable {radix base n m acc : Nat} {marked : Bool} {place : Place} {c : Char} {cs pre : List Char}

-- ---------------------------------------------------------------------------
-- The loop over the digits
-- ---------------------------------------------------------------------------

/-- What the loop has read when it stands at a place, and its number. -/
inductive Scanned (radix : Nat) (marked : Bool) : Place → List Char → Nat → Prop
  | start : Scanned radix marked (.start marked) [] 0
  | digit {cs : List Char} {n : Nat} (h : Body radix marked cs n) :
    Scanned radix marked .digit cs n
  | underscore {cs : List Char} {n : Nat} (h : Body radix marked cs n) :
    Scanned radix marked .underscore (cs ++ ['_']) n
  | first (h : marked = true) : Scanned radix marked .underscore ['_'] 0

theorem Body.digit {d : Nat} (h : Body radix marked cs n) (hc : digit? c = some d)
    (hd : d < radix) : Body radix marked (cs ++ [c]) (n * radix + d) := by
  cases h with
  | digits h => exact .digits (h.digit hc hd)
  | underscore h => exact .underscore (h.digit hc hd)

theorem Body.underscore_digit {d : Nat} (h : Body radix marked cs n) (hc : digit? c = some d)
    (hd : d < radix) : Body radix marked (cs ++ ['_', c]) (n * radix + d) := by
  cases h with
  | digits h => exact .digits (h.underscore hc hd)
  | underscore h => exact .underscore (h.underscore hc hd)

theorem Scanned.digit_step {d : Nat} (h : Scanned radix marked place pre n)
    (hc : digit? c = some d) (hd : d < radix) :
    Scanned radix marked .digit (pre ++ [c]) (n * radix + d) := by
  refine .digit ?_
  have one : Grouped radix [c] (0 * radix + d) := by simpa using Grouped.one hc hd
  cases h with
  | start => exact .digits one
  | digit h => exact h.digit hc hd
  | underscore h => simpa using h.underscore_digit hc hd
  | first h => exact h ▸ .underscore one

theorem Scanned.underscore_step (h : Scanned radix marked place pre n)
    (admits : place = .digit ∨ place = .start true) :
    Scanned radix marked .underscore (pre ++ ['_']) n := by
  cases h with
  | start => exact .first (by simpa using admits)
  | digit h => exact .underscore h
  | underscore | first => simp at admits

/-- Reading on to the end makes the digits of a numeral out of what has been read. -/
theorem body_of_magnitudeFrom? (scanned : Scanned radix marked place pre n)
    (h : magnitudeFrom? radix place acc cs = some m) : ∃ k, Body radix marked (pre ++ cs) k := by
  induction cs generalizing place pre n acc with
  | nil =>
    cases scanned with
    | digit body => exact ⟨n, by simpa using body⟩
    | _ => cases h
  | cons c cs ih =>
    rw [List.append_cons]
    rcases of_magnitudeFrom?_cons h with ⟨rfl, admits⟩ | ⟨d, hc, hd⟩
    · rw [magnitudeFrom?_underscore_cons admits] at h
      exact ih (scanned.underscore_step admits) h
    · rw [magnitudeFrom?_digit_cons hc hd] at h
      exact ih (scanned.digit_step hc hd) h

theorem body_of_magnitude? (h : magnitude? radix marked cs = some m) :
    ∃ n, Body radix marked cs n :=
  body_of_magnitudeFrom? .start h

theorem grouped_of_magnitude? (h : magnitude? radix false cs = some m) :
    ∃ n, Grouped radix cs n := by
  obtain ⟨n, _ | _⟩ := body_of_magnitude? h
  exact ⟨n, ‹_›⟩

-- ---------------------------------------------------------------------------
-- Marks
-- ---------------------------------------------------------------------------

/-- A letter of either case. -/
theorem eq_or_eq_of_toLower {letter : Char} (h : c.toLower = letter) :
    c = letter ∨ c.toNat + 32 = letter.toNat := by
  have lowered := Text.toNat_toLower c
  subst h
  split at lowered
  · exact .inr lowered.symm
  · exact .inl (Char.toNat_inj.1 lowered.symm)

theorem marks_of_dropMark? {letter : Char} (named : markOf? radix = some letter)
    {rest : List Char} (h : dropMark? letter cs = some rest) :
    ∃ c, Marks radix c ∧ cs = '0' :: c :: rest := by
  rw [dropMark?.eq_def] at h
  split at h
  · next c _ =>
    simp only [Option.ite_none_right_eq_some, Option.some.injEq] at h
    obtain ⟨lower, rfl⟩ := h
    refine ⟨c, ?_, rfl⟩
    have either {upper : Char} (hu : upper.toNat + 32 = letter.toNat) : c = letter ∨ c = upper :=
      (eq_or_eq_of_toLower lower).imp_right fun hc => Char.toNat_inj.1 (by omega)
    rw [markOf?.eq_def] at named
    split at named <;> cases named
    · exact .hex (either rfl)
    · exact .octal (either rfl)
    · exact .binary (either rfl)
  · cases h

theorem unsigned_of_dropMark? {letter : Char} (named : markOf? radix = some letter)
    {rest : List Char} (dropped : dropMark? letter cs = some rest)
    (allowed : base = radix ∨ base = 0) (h : magnitude? radix true rest = some m) :
    ∃ n, Unsigned base cs n := by
  obtain ⟨c, marks, rfl⟩ := marks_of_dropMark? named dropped
  obtain ⟨n, body⟩ := body_of_magnitude? h
  exact ⟨n, .marked marks allowed body⟩

theorem unsigned_of_unsigned? (h : unsigned? base cs = some m) : ∃ n, Unsigned base cs n := by
  rw [unsigned?] at h
  split at h
  · next zero =>
    subst zero
    rw [unsignedAuto?] at h
    split at h
    · next dropped => exact unsigned_of_dropMark? rfl dropped (.inr rfl) h
    · next dropped => exact unsigned_of_dropMark? rfl dropped (.inr rfl) h
    · next dropped => exact unsigned_of_dropMark? rfl dropped (.inr rfl) h
    · simp only [Option.ite_none_left_eq_some] at h
      obtain ⟨zeros, h⟩ := h
      obtain ⟨n, grouped⟩ := grouped_of_magnitude? h
      exact ⟨n, .auto grouped (by simpa [← or_iff_not_imp_left] using zeros)⟩
  · next positive =>
    split at h
    · next dropped =>
      obtain ⟨letter, named, dropped⟩ := Option.bind_eq_some_iff.1 dropped
      exact unsigned_of_dropMark? named dropped (.inl rfl) h
    · obtain ⟨n, grouped⟩ := grouped_of_magnitude? h
      exact ⟨n, .plain positive grouped⟩

-- ---------------------------------------------------------------------------
-- Signs
-- ---------------------------------------------------------------------------

/-- A text that is not refused as malformed is a numeral. -/
theorem spells_of_parse {text : List Char} (h : parse base text ≠ .error .malformed) :
    ∃ k, Spells base (Text.trim Text.isBlank text) k := by
  rw [parse] at h
  generalize Text.trim Text.isBlank text = cs at h ⊢
  have unsigned : ∃ n, Unsigned base (splitSign cs).2 n := by
    cases read : unsigned? base (splitSign cs).2 with
    | none => simp [read] at h
    | some m => exact unsigned_of_unsigned? read
  obtain ⟨n, unsigned⟩ := unsigned
  rw [splitSign.eq_def] at unsigned
  split at unsigned
  · exact ⟨_, .minus unsigned⟩
  · exact ⟨_, .plus unsigned⟩
  · exact ⟨_, .plain unsigned⟩

section
variable {text : List Char}

theorem parse_eq_ok_iff {w : Int64} :
    parse base text = .ok w ↔ Spells base (Text.trim Text.isBlank text) w.toInt := by
  constructor
  · intro h
    have accepted : parse base text ≠ .error .malformed := by simp [h]
    obtain ⟨k, spelled⟩ := spells_of_parse accepted
    rw [parse_of_spells spelled] at h
    cases narrowed : Checked.narrow? k with
    | none => simp [narrowed] at h
    | some v =>
      obtain rfl : v = w := by simpa [narrowed] using h
      rwa [Checked.toInt_of_narrow? narrowed]
  · intro spelled
    rw [parse_of_spells spelled, Checked.narrow?_toInt, Option.elim_some]

theorem parse_eq_tooLarge_iff : parse base text = .error .tooLarge ↔
    ∃ k, Spells base (Text.trim Text.isBlank text) k ∧ ¬ Checked.Fits k := by
  constructor
  · intro h
    have accepted : parse base text ≠ .error .malformed := by simp [h]
    obtain ⟨k, spelled⟩ := spells_of_parse accepted
    refine ⟨k, spelled, fun fits => ?_⟩
    simp [parse_of_spells spelled, Checked.narrow?, fits] at h
  · rintro ⟨k, spelled, large⟩
    simp [parse_of_spells spelled, Checked.narrow?, large]

theorem parse_eq_malformed_iff : parse base text = .error .malformed ↔
    ∀ k, ¬ Spells base (Text.trim Text.isBlank text) k := by
  constructor
  · intro h k spelled
    rw [parse_of_spells spelled] at h
    cases narrowed : Checked.narrow? k <;> simp [narrowed] at h
  · intro none
    by_contra h
    obtain ⟨k, spelled⟩ := spells_of_parse h
    exact none k spelled

end

end Numeral

namespace Construct

/-- In every base and for every text: a word is read if and only if the text,
without the blanks around it, is a numeral that denotes the word; a numeral that
denotes no word is an overflow, and everything else is a bad value. -/
theorem parsed_iff_spells (base : Nat) (text : List Char) :
    (∀ n, parsed base text = .ok n ↔
      Numeral.Spells base (Text.trim Text.isBlank text) n.toInt) ∧
    ((∃ c, parsed base text = .error c ∧ c.kind = .overflow) ↔
      ∃ k, Numeral.Spells base (Text.trim Text.isBlank text) k ∧ ¬ Checked.Fits k) ∧
    ((∃ c, parsed base text = .error c ∧ c.kind = .value) ↔
      ∀ k, ¬ Numeral.Spells base (Text.trim Text.isBlank text) k) := by
  rw [← Numeral.parse_eq_tooLarge_iff, ← Numeral.parse_eq_malformed_iff]
  simp only [← Numeral.parse_eq_ok_iff, parsed]
  cases Numeral.parse base text with
  | ok w => simp
  | error e => cases e <;> simp [Cause.kind]

end Construct

end ObjectModel
