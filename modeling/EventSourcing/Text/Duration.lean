/-!
Spans of time as text.
Time is counted in whole milliseconds. A span below a second is written in milliseconds, a longer
one in seconds with as many decimals as it needs, and no time at all as `0ns`.
-/
namespace EventSourcing.Text

/-- The decimals of a part of a second given in thousandths, without trailing zeros. -/
def thousandths (n : Nat) : String :=
  if n = 0 then ""
  else if n % 100 = 0 then s!".{n / 100}"
  else if n % 10 = 0 then
    (if n < 100 then ".0" else ".") ++ toString (n / 10)
  else (if n < 10 then ".00" else if n < 100 then ".0" else ".") ++ toString n

def duration (ms : Nat) : String :=
  if ms = 0 then "0ns"
  else if ms < 1000 then s!"{ms}ms"
  else s!"{ms / 1000}{thousandths (ms % 1000)}s"

example : [0, 50, 1000, 1001, 1500, 90061].map duration =
    ["0ns", "50ms", "1s", "1.001s", "1.5s", "90.061s"] := by cbv

end EventSourcing.Text
