/-!
# UTF-8

Characters to bytes and back. Decoding is strict about overlong forms and
surrogates; a failure names the first byte that starts no character. The
forgiving decoder replaces each maximal piece of a broken sequence by U+FFFD.
-/

namespace ObjectModel.Utf8

def encode (cs : List Char) : List UInt8 := cs.flatMap String.utf8EncodeChar

@[simp] theorem encode_nil : encode [] = [] := rfl

@[simp] theorem encode_cons (c : Char) (cs : List Char) :
    encode (c :: cs) = String.utf8EncodeChar c ++ encode cs := rfl

@[simp] theorem encode_append (cs ds : List Char) : encode (cs ++ ds) = encode cs ++ encode ds := by
  simp [encode]

def size (cs : List Char) : Nat := cs.foldr (fun c n => c.utf8Size + n) 0

theorem size_append (as bs : List Char) : size (as ++ bs) = size as + size bs := by
  induction as with
  | nil => simp [size]
  | cons a as ih => simp only [size, List.cons_append, List.foldr_cons] at ih ⊢; omega

theorem length_encode (cs : List Char) : (encode cs).length = size cs := by
  induction cs with
  | nil => rfl
  | cons c cs ih => simp [size, ih]

def isContinuation (b : UInt8) : Bool := 0x80 ≤ b && b ≤ 0xBF

/-- Which second bytes may follow a lead byte: three-byte forms exclude
overlong forms and surrogates, four-byte forms overlong forms and numbers past
U+10FFFF. -/
def mayFollow (lead second : UInt8) : Bool :=
  if lead = 0xE0 then 0xA0 ≤ second && second ≤ 0xBF
  else if lead = 0xED then 0x80 ≤ second && second ≤ 0x9F
  else if lead = 0xF0 then 0x90 ≤ second && second ≤ 0xBF
  else if lead = 0xF4 then 0x80 ≤ second && second ≤ 0x8F
  else isContinuation second

/-- Bytes announced by a lead byte; zero for a byte that leads nothing. -/
def leadWidth (b : UInt8) : Nat :=
  if b < 0x80 then 1
  else if b < 0xC2 then 0
  else if b < 0xE0 then 2
  else if b < 0xF0 then 3
  else if b < 0xF5 then 4
  else 0

def payload (b : UInt8) : Nat := b.toNat % 64

/-- One step of decoding. -/
inductive Step where
  /-- a character and the bytes after it -/
  | char (c : Char) (rest : List UInt8)
  /-- a broken sequence and the bytes after its maximal well-formed start -/
  | broken (rest : List UInt8)

/-- Decodes one character from a lead byte and what follows it. -/
def step (lead : UInt8) (rest : List UInt8) : Step :=
  match leadWidth lead, rest with
  | 1, _ => .char (Char.ofNat lead.toNat) rest
  | 2, b :: rest' =>
    if isContinuation b then .char (Char.ofNat ((lead.toNat % 32) * 64 + payload b)) rest'
    else .broken rest
  | 3, b :: rest' =>
    if mayFollow lead b then
      match rest' with
      | c :: rest'' =>
        if isContinuation c then
          .char (Char.ofNat (((lead.toNat % 16) * 64 + payload b) * 64 + payload c)) rest''
        else .broken rest'
      | [] => .broken rest'
    else .broken rest
  | 4, b :: rest' =>
    if mayFollow lead b then
      match rest' with
      | c :: rest'' =>
        if isContinuation c then
          match rest'' with
          | d :: rest''' =>
            if isContinuation d then
              .char (Char.ofNat
                ((((lead.toNat % 8) * 64 + payload b) * 64 + payload c) * 64 + payload d)) rest'''
            else .broken rest''
          | [] => .broken rest''
        else .broken rest'
      | [] => .broken rest'
    else .broken rest
  | _, _ => .broken rest

def Step.rest : Step → List UInt8
  | .char _ rest => rest
  | .broken rest => rest

theorem length_rest_step_le (lead : UInt8) (rest : List UInt8) :
    (step lead rest).rest.length ≤ rest.length := by
  unfold step
  repeat' split
  all_goals simp only [Step.rest, List.length_cons]
  all_goals omega

theorem length_rest_lt_of_step {lead : UInt8} {rest : List UInt8} {s : Step}
    (h : step lead rest = s) : s.rest.length < (lead :: rest).length := by
  subst h
  exact Nat.lt_succ_of_le (length_rest_step_le lead rest)

/-- Strict decoding; the error is the position of the first byte that starts no
character, counted from `position`. -/
def decodeFrom (position : Nat) : List UInt8 → Except Nat (List Char)
  | [] => .ok []
  | b :: bs =>
    match h : step b bs with
    | .char c rest =>
      have := length_rest_lt_of_step h
      (decodeFrom (position + c.utf8Size) rest).map (c :: ·)
    | .broken _ => .error position
termination_by bytes => bytes.length
decreasing_by assumption

def decode (bytes : List UInt8) : Except Nat (List Char) := decodeFrom 0 bytes

def decodeLossy : List UInt8 → List Char
  | [] => []
  | b :: bs =>
    match h : step b bs with
    | .char c rest =>
      have := length_rest_lt_of_step h
      c :: decodeLossy rest
    | .broken rest =>
      have := length_rest_lt_of_step h
      '\uFFFD' :: decodeLossy rest
termination_by bytes => bytes.length
decreasing_by all_goals assumption

end ObjectModel.Utf8
