import SchemeMachine.Text.Printable
import SchemeMachine.Text.Utf8

/-!
# Names in quotes

A file name in a message stands between single quotes, or between double quotes
if it holds a single quote and no double quote.  The quote used, backslashes and
the characters that do not print are escaped, these by their code points in as
few of two, four or eight hexadecimal digits as are enough.
-/

namespace SchemeMachine.Text

/-- The low hexadecimal digits of a code point, as many as are asked for. -/
def hexDigits : Nat → Nat → List Char
  | 0, _ => []
  | count + 1, n => hexDigits count (n / 16) ++ [Utf8.hexDigit n]

/-- The escape of a code point. -/
def codeEscape (n : Nat) : String :=
  if n < 0x100 then "\\x" ++ String.ofList (hexDigits 2 n)
  else if n < 0x10000 then "\\u" ++ String.ofList (hexDigits 4 n)
  else "\\U" ++ String.ofList (hexDigits 8 n)

/-- One character of a quoted name. -/
def quotedChar (quote c : Char) : String :=
  if c = quote || c = '\\' then String.ofList ['\\', c]
  else if c = '\n' then "\\n"
  else if c = '\r' then "\\r"
  else if c = '\t' then "\\t"
  else if isPrinted c then String.singleton c
  else codeEscape c.toNat

/-- A name between quotes. -/
def quoted (name : String) : String :=
  let cs := name.toList
  let quote := if cs.contains (Char.ofNat 0x27) && !cs.contains '"' then '"' else Char.ofNat 0x27
  String.singleton quote ++ String.join (cs.map (quotedChar quote)) ++ String.singleton quote

end SchemeMachine.Text
