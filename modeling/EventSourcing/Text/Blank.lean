/-!
Blank characters and trimming.
A character is blank when it has the White_Space property of Unicode.
-/
namespace EventSourcing.Text

/-- The White_Space property. -/
def isBlank (c : Char) : Bool :=
  let n := c.toNat
  (9 ≤ n && n ≤ 13) || n == 0x20 || n == 0x85 || n == 0xA0 || n == 0x1680 ||
  (0x2000 ≤ n && n ≤ 0x200A) || n == 0x2028 || n == 0x2029 || n == 0x202F ||
  n == 0x205F || n == 0x3000

/-- Drops blank characters at the front. -/
def trimLeft (cs : List Char) : List Char := cs.dropWhile isBlank

/-- Drops blank characters at both ends. -/
def trim (cs : List Char) : List Char := (trimLeft (trimLeft cs).reverse).reverse

/-- A text with no character that is not blank. -/
def allBlank (s : String) : Bool := s.toList.all isBlank

end EventSourcing.Text
