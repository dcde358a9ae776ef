import LiveMarkup.Text.DefaultIgnorable
import LiveMarkup.Text.GraphemeExtend
import LiveMarkup.Text.Unprintable

/-!
Quoted text, as debugging text shows it: in double quotes, with escapes for the quote, the
backslash, and every character that would not be seen on its own.
-/

set_option autoImplicit false
set_option relaxedAutoImplicit false

namespace LiveMarkup

/-- A character named by its code point in hexadecimal digits. -/
def escapeCode (c : Char) : List Char :=
  '\\' :: 'u' :: '\x7b' :: Nat.toDigits 16 c.toNat ++ ['\x7d']

/-- A character as it stands in quoted text. -/
def escapeChar (c : Char) : List Char :=
  if c == '\x00' then ['\\', '0']
  else if c == '\t' then ['\\', 't']
  else if c == '\r' then ['\\', 'r']
  else if c == '\n' then ['\\', 'n']
  else if c == '\\' || c == '"' then ['\\', c]
  else if ' ' ≤ c && c ≤ '~' then [c]
  else if isGraphemeExtend c || isUnprintable c || isDefaultIgnorable c then escapeCode c
  else [c]

/-- A text in quotes. -/
def quoted (s : String) : String :=
  String.ofList ('"' :: s.toList.flatMap escapeChar ++ ['"'])

end LiveMarkup
