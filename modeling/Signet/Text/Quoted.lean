import Signet.Text.Printable

/-! # Quoted text

Text between double quotes on one line. The quote and the backslash get a backslash before them,
four control characters have letters, and every other character that cannot be read on its own is
written as its code point in hexadecimal.
-/

namespace Signet.Text

/-- Digits of a code point, lower case, without leading zeros. -/
def hexDigits (n : Nat) : List Char := Nat.toDigits 16 n

/-- One character inside quotes. -/
def quoteChar (c : Char) : List Char :=
  if c = '"' then ['\\', '"']
  else if c = '\\' then ['\\', '\\']
  else if c = '\t' then ['\\', 't']
  else if c = '\r' then ['\\', 'r']
  else if c = '\n' then ['\\', 'n']
  else if c = '\x00' then ['\\', '0']
  else if isPrintable c then [c]
  else ['\\', 'u', '\x7b'] ++ hexDigits c.toNat ++ ['\x7d']

/-- A text in double quotes. -/
def quote (text : List Char) : List Char := ['"'] ++ text.flatMap quoteChar ++ ['"']

end Signet.Text
