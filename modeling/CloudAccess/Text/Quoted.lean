import CloudAccess.Text.Hidden
import CloudAccess.Text.Digits

/-!
# Quoted text

A character or a string between quotes, as diagnostic messages show it.  The
control characters with a letter of their own are written with it, the
backslash and the enclosing quote are escaped, and every other hidden
character is written by its code point.
-/

namespace CloudAccess.Text

/-- The escaped form of `c` between the quotes `quote`. -/
def escapeChar (quote c : Char) : List Char :=
  if c = '\x00' then ['\\', '0']
  else if c = '\t' then ['\\', 't']
  else if c = '\r' then ['\\', 'r']
  else if c = '\n' then ['\\', 'n']
  else if c = '\\' || c = quote then ['\\', c]
  else if isHidden c then '\\' :: 'u' :: '\x7b' :: hexShort c.toNat ++ ['\x7d']
  else [c]

/-- A character between single quotes. -/
def quoteChar (c : Char) : String :=
  String.ofList ('\'' :: escapeChar '\'' c ++ ['\''])

/-- A string between double quotes. -/
def quoteString (s : String) : String :=
  String.ofList ('"' :: s.toList.flatMap (escapeChar '"') ++ ['"'])

example : escapeChar '\'' '"' = ['"'] := by decide
example : escapeChar '"' '"' = ['\\', '"'] := by decide
example : escapeChar '\'' (Char.ofNat 0x301) =
    ['\\', 'u', '\x7b', '3', '0', '1', '\x7d'] := by decide +kernel

end CloudAccess.Text
