import EventSourcing.Text.Alphabetic
import EventSourcing.Text.Numeric

/-!
Letters and numbers of all scripts.
-/
namespace EventSourcing.Text

/-- A letter or a number. -/
def isAlphanumeric (c : Char) : Bool := isAlphabetic c || isNumeric c

end EventSourcing.Text
