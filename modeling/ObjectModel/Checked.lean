/-!
# Checked 64-bit arithmetic

Integers are 64-bit words. An operation whose mathematical result leaves the
range is refused, never wrapped; division and remainder round toward negative
infinity.
-/

namespace ObjectModel.Checked

/-- Why an integer operation has no result. -/
inductive Error where
  | overflow
  | zeroDivision
  | negativeShift
  | negativeExponent
  deriving DecidableEq, Repr

def Error.message : Error → String
  | .overflow => "integer overflow"
  | .zeroDivision => "integer division or modulo by zero"
  | .negativeShift => "negative shift count"
  | .negativeExponent => "negative exponent"

/-- The mathematical integers that a 64-bit word holds. -/
def Fits (n : Int) : Prop := -0x8000000000000000 ≤ n ∧ n < 0x8000000000000000

instance (n : Int) : Decidable (Fits n) := inferInstanceAs (Decidable (_ ∧ _))

/-- The word for `n`, when there is one. -/
def narrow? (n : Int) : Option Int64 := if Fits n then some (Int64.ofInt n) else none

def narrow (n : Int) : Except Error Int64 :=
  match narrow? n with
  | some w => .ok w
  | none => .error .overflow

theorem fits_toInt (a : Int64) : Fits a.toInt := ⟨Int64.le_toInt a, Int64.toInt_lt a⟩

theorem narrow?_toInt (a : Int64) : narrow? a.toInt = some a := by
  simp [narrow?, fits_toInt]

theorem toInt_of_narrow? {n : Int} {w : Int64} (h : narrow? n = some w) : w.toInt = n := by
  unfold narrow? at h
  split at h
  · next hf =>
    cases h
    exact Int64.toInt_ofInt_of_le hf.1 hf.2
  · cases h

def add (a b : Int64) : Except Error Int64 := narrow (a.toInt + b.toInt)

def sub (a b : Int64) : Except Error Int64 := narrow (a.toInt - b.toInt)

def mul (a b : Int64) : Except Error Int64 := narrow (a.toInt * b.toInt)

def neg (a : Int64) : Except Error Int64 := narrow (-a.toInt)

def abs (a : Int64) : Except Error Int64 := narrow a.toInt.natAbs

/-- Quotient rounded toward negative infinity: the truncated quotient, less
one when the division is not exact and the signs differ. -/
def floorDiv (a b : Int64) : Except Error Int64 :=
  if b = 0 then .error .zeroDivision
  else if a = Int64.minValue ∧ b = -1 then .error .overflow
  else
    let q := a / b
    if a % b ≠ 0 ∧ (a < 0) ≠ (b < 0) then .ok (q - 1) else .ok q

/-- Remainder carrying the sign of the divisor. -/
def floorMod (a b : Int64) : Except Error Int64 :=
  if b = 0 then .error .zeroDivision
  else if a = Int64.minValue ∧ b = -1 then .error .overflow
  else
    let r := a % b
    if r ≠ 0 ∧ (r < 0) ≠ (b < 0) then .ok (r + b) else .ok r

/-- Left shift. A bit is lost exactly when shifting the wrapped word back does
not restore the operand. -/
def shiftLeft (value count : Int64) : Except Error Int64 :=
  if count < 0 then .error .negativeShift
  else if value = 0 then .ok 0
  else if 64 ≤ count then .error .overflow
  else
    let shifted := value <<< count
    if shifted >>> count = value then .ok shifted else .error .overflow

/-- Arithmetic right shift; 63 places already leave only the sign. -/
def shiftRight (value count : Int64) : Except Error Int64 :=
  if count < 0 then .error .negativeShift
  else .ok (value >>> (if count < 63 then count else 63))

/-- Square and multiply: the answer is `result * base ^ exponent`. The base is
squared only while exponent bits remain, and every remaining bit would multiply
the squared base in. -/
def powLoop (result base : Int64) (exponent : Nat) : Except Error Int64 :=
  if exponent = 0 then .ok result
  else do
    let result ← if exponent % 2 = 1 then mul result base else pure result
    let rest := exponent / 2
    if rest = 0 then pure result
    else powLoop result (← mul base base) rest
termination_by exponent

def pow (base exponent : Int64) : Except Error Int64 :=
  if exponent < 0 then .error .negativeExponent
  else powLoop 1 base exponent.toInt.toNat

end ObjectModel.Checked
