/-!
Sizes of text in bytes.
-/
namespace EventSourcing.Text

/-- The number of bytes of the UTF-8 form of a text. -/
def byteCount : List Char → Nat
  | [] => 0
  | c :: rest => c.utf8Size + byteCount rest

/-- The first n bytes of a text and the rest, unless a character would be split. -/
def splitBytes? (n : Nat) : List Char → Option (List Char × List Char)
  | [] => if n = 0 then some ([], []) else none
  | c :: rest =>
    if n = 0 then some ([], c :: rest)
    else if n < c.utf8Size then none
    else (splitBytes? (n - c.utf8Size) rest).map fun (a, b) => (c :: a, b)

end EventSourcing.Text
