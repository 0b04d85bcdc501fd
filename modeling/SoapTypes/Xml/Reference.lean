import SoapTypes.Xml.Error

/-!
# References in attribute values

A reference stands between `&` and `;` and gives one character: by its code point, in decimal
or hexadecimal digits, or by one of five names. All else in a value stands for itself. Faults
give places in the bytes of the value's UTF-8 form.
-/

namespace SoapTypes.Xml

/-- The number of bytes in the UTF-8 form of a text. -/
def byteLength (s : List Char) : Nat :=
  (String.ofList s).utf8ByteSize

/-- The value of a digit in a base up to 16. -/
def digitValue? (base : Nat) (c : Char) : Option Nat :=
  let value :=
    if '0' ≤ c ∧ c ≤ '9' then c.toNat - '0'.toNat
    else if 'a' ≤ c ∧ c ≤ 'f' then c.toNat - 'a'.toNat + 10
    else if 'A' ≤ c ∧ c ≤ 'F' then c.toNat - 'A'.toNat + 10
    else base
  if value < base then some value else none

/-- Goes on reading digits behind a number. The first fault from the left counts, and a number
must fit into 32 bits. -/
def readDigits (base number : Nat) : List Char → Except NumberFault Nat
  | [] => .ok number
  | c :: s =>
    match digitValue? base c with
    | none => .error .invalidDigit
    | some d =>
      if number * base + d < 4294967296 then readDigits base (number * base + d) s
      else .error .tooLarge

/-- The number that digits write. -/
def readNumber (base : Nat) : List Char → Except CodePointFault Nat
  | [] => .error (.number .empty)
  | c :: s =>
    if c = '+' ∨ c = '-' then .error .sign
    else (readDigits base 0 (c :: s)).mapError .number

/-- The character of a code point. -/
def charOfCode (code : Nat) : Except CodePointFault Char :=
  if code = 0 then .error .zero
  else if h : code.isValidChar then .ok (Char.ofNatAux code h)
  else .error (.notScalar code)

/-- The character of the text that follows `&#`. -/
def charOfReference : List Char → Except CodePointFault Char
  | 'x' :: s => (readNumber 16 s).bind charOfCode
  | s => (readNumber 10 s).bind charOfCode

/-- The characters that have a name. -/
def namedEntities : List (String × Char) :=
  [("lt", '<'), ("gt", '>'), ("amp", '&'), ("apos", '\''), ("quot", '"')]

/-- The character that the text between `&` and `;` stands for, where the text begins at the
byte `start`. -/
def referredChar (start : Nat) (body : List Char) : Except ReferenceFault Char :=
  match body with
  | '#' :: s => (charOfReference s).mapError .character
  | _ =>
    match namedEntities.lookup (String.ofList body) with
    | some c => .ok c
    | none => .error (.unknownEntity start (start + byteLength body) (String.ofList body))

/-- Resolves the references in the rest of a value, which begins at the byte `start` of a value
of `size` bytes. -/
def unescapeFrom (size start : Nat) (s : List Char) : Except ReferenceFault (List Char) :=
  match s with
  | [] => .ok []
  | c :: s =>
    if c = '&' then
      let body := s.takeWhile fun c => c != '&' && c != ';'
      match _hs : s.dropWhile fun c => c != '&' && c != ';' with
      | ';' :: rest =>
        (referredChar (start + 1) body).bind fun d =>
          (unescapeFrom size (start + 1 + byteLength body + 1) rest).map (d :: ·)
      | _ => .error (.unterminated start size)
    else (unescapeFrom size (start + c.utf8Size) s).map (c :: ·)
termination_by s.length
decreasing_by
  · have := (_hs ▸ List.dropWhile_suffix fun c => c != '&' && c != ';' : _ :: rest <:+ s).length_le
    simp only [List.length_cons] at this ⊢
    omega
  · simp

/-- The value that a written value stands for. -/
def unescape (s : String) : Except ReferenceFault String :=
  (unescapeFrom s.utf8ByteSize 0 s.toList).map String.ofList

end SoapTypes.Xml
