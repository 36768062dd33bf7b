/-!
# UTF-8

Decoding bytes to characters.  A text that is not UTF-8 is refused with the first
offending bytes and the reason: a byte that starts no character, a byte that
should continue one and does not, or an end in the middle of one.
-/

namespace SchemeMachine.Text.Utf8

/-- Why some bytes are not the start of a UTF-8 text. -/
inductive Reason where
  | invalidStart
  | invalidContinuation
  | unexpectedEnd
  deriving DecidableEq, Repr

/-- The wording of a reason. -/
def Reason.text : Reason → String
  | invalidStart => "invalid start byte"
  | invalidContinuation => "invalid continuation byte"
  | unexpectedEnd => "unexpected end of data"

/-- Where a text stops being UTF-8: the position and value of the first
offending byte, how many bytes offend, and why. -/
structure Problem where
  position : Nat
  byte : Nat
  count : Nat
  reason : Reason
  deriving DecidableEq, Repr

/-- A hexadecimal digit in lower case. -/
def hexDigit (n : Nat) : Char :=
  Nat.digitChar (n % 16)

/-- A byte as two hexadecimal digits. -/
def hexByte (n : Nat) : String :=
  String.ofList [hexDigit (n / 16), hexDigit n]

/-- The wording of a problem. -/
def Problem.text (p : Problem) : String :=
  let place :=
    if p.count = 1 then "byte 0x" ++ hexByte p.byte ++ " in position " ++ p.position.repr
    else "bytes in position " ++ p.position.repr ++ "-" ++ (p.position + p.count - 1).repr
  "'utf-8' codec can't decode " ++ place ++ ": " ++ p.reason.text

/-- Whether a byte continues a character. -/
def continues (b : Nat) : Bool :=
  0x80 ≤ b && b < 0xC0

/-- Whether `b` may be the second byte of a character that starts with `lead`.
Some second bytes would spell a character too long, a surrogate, or a code point
past the last one. -/
def continuesLead (lead b : Nat) : Bool :=
  continues b &&
    !(lead = 0xE0 && b < 0xA0) && !(lead = 0xED && 0xA0 ≤ b) &&
    !(lead = 0xF0 && b < 0x90) && !(lead = 0xF4 && 0x90 ≤ b)

/-- The number of bytes of a character, by its first byte. -/
def width? (lead : Nat) : Option Nat :=
  if lead < 0x80 then some 1
  else if lead < 0xC2 then none
  else if lead < 0xE0 then some 2
  else if lead < 0xF0 then some 3
  else if lead < 0xF5 then some 4
  else none

/-- The payload bits of a byte that continues a character. -/
def low6 (b : Nat) : Nat :=
  b % 64

/-- The fault of bytes whose first one is at `position`. -/
def refuse {α : Type} (position lead count : Nat) (reason : Reason) : Except Problem α :=
  .error ⟨position, lead, count, reason⟩

/-- Decode bytes, the first of which is at `position` in the text. -/
def decodeFrom (position : Nat) : List Nat → Except Problem (List Char)
  | [] => .ok []
  | a :: rest =>
    match width? a with
    | none => refuse position a 1 .invalidStart
    | some 1 => (decodeFrom (position + 1) rest).map (Char.ofNat a :: ·)
    | some 2 =>
      match rest with
      | [] => refuse position a 1 .unexpectedEnd
      | b :: rest =>
        if !continuesLead a b then refuse position a 1 .invalidContinuation
        else
          (decodeFrom (position + 2) rest).map (Char.ofNat (a % 32 * 64 + low6 b) :: ·)
    | some 3 =>
      match rest with
      | [] => refuse position a 1 .unexpectedEnd
      | [b] =>
        if !continuesLead a b then refuse position a 1 .invalidContinuation
        else refuse position a 2 .unexpectedEnd
      | b :: c :: rest =>
        if !continuesLead a b then refuse position a 1 .invalidContinuation
        else if !continues c then refuse position a 2 .invalidContinuation
        else
          (decodeFrom (position + 3) rest).map
            (Char.ofNat (a % 16 * 4096 + low6 b * 64 + low6 c) :: ·)
    | some _ =>
      match rest with
      | [] => refuse position a 1 .unexpectedEnd
      | [b] =>
        if !continuesLead a b then refuse position a 1 .invalidContinuation
        else refuse position a 2 .unexpectedEnd
      | [b, c] =>
        if !continuesLead a b then refuse position a 1 .invalidContinuation
        else if !continues c then refuse position a 2 .invalidContinuation
        else refuse position a 3 .unexpectedEnd
      | b :: c :: d :: rest =>
        if !continuesLead a b then refuse position a 1 .invalidContinuation
        else if !continues c then refuse position a 2 .invalidContinuation
        else if !continues d then refuse position a 3 .invalidContinuation
        else
          (decodeFrom (position + 4) rest).map
            (Char.ofNat (a % 8 * 262144 + low6 b * 4096 + low6 c * 64 + low6 d) :: ·)

/-- Decode a text. -/
def decode (bytes : List Nat) : Except Problem (List Char) :=
  decodeFrom 0 bytes

end SchemeMachine.Text.Utf8
