/-!
Bounds of machine words.
-/
namespace EventSourcing.Word

/-- The number of words of so many bits. -/
def count (bits : Nat) : Nat := Nat.pow 2 bits

def leastInt32 : Int := -2147483648
def greatestInt32 : Int := 2147483647
def leastInt64 : Int := -9223372036854775808
def greatestInt64 : Int := 9223372036854775807

/-- Whether a number is a signed word of 64 bits. -/
def isInt64 (n : Int) : Bool := leastInt64 ≤ n && n ≤ greatestInt64

end EventSourcing.Word
