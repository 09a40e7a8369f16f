import EventSourcing.Text.Glyphless

/-!
Text between double quotes, in which every character can be seen.
Quotes and backslashes are escaped, controls with a letter of their own use it, and any other
character without a glyph is written by its number in base sixteen.
-/
namespace EventSourcing.Text

/-- The digits of a number in base sixteen, lower case. -/
def hex (n : Nat) : String := String.ofList (Nat.toDigits 16 n)

def quoteChar (c : Char) : String :=
  if c = '\x00' then "\\0"
  else if c = '\t' then "\\t"
  else if c = '\r' then "\\r"
  else if c = '\n' then "\\n"
  else if c = '\\' then "\\\\"
  else if c = '\"' then "\\\""
  else if isGlyphless c then "\\u\x7b" ++ hex c.toNat ++ "\x7d"
  else String.singleton c

def quoted (s : String) : String :=
  "\"" ++ String.join (s.toList.map quoteChar) ++ "\""

example : quoted "a\"b\n" = "\"a\\\"b\\n\"" := by cbv

end EventSourcing.Text
