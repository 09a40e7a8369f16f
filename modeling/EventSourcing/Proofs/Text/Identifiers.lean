import Mathlib.Algebra.GroupWithZero.Nat
import EventSourcing.Revision
import EventSourcing.Ulid.Text

/-!
Identifiers and their texts.
An identifier is read back from its text, so that different identifiers have different texts. The
text has 26 digits, of which each is a byte.
-/
namespace EventSourcing

namespace Ulid

theorem digitValue?_digitChar (d : Nat) (h : d < 32) :
    digitValue? (digitChar d) = some d ∧ (digitChar d).utf8Size = 1 := by
  have all : ∀ d : Fin 32, digitValue? (digitChar d) = some d.val ∧
      (digitChar d).utf8Size = 1 := by decide
  exact all ⟨d, h⟩

theorem fromDigits?_append (acc : Nat) (front back : List Char) :
    fromDigits? acc (front ++ back) = (fromDigits? acc front).bind (fromDigits? · back) := by
  induction front generalizing acc with
  | nil => rfl
  | cons c rest ih =>
      rw [List.cons_append, fromDigits?, fromDigits?]
      cases digitValue? c with
      | none => rfl
      | some d => exact ih _

theorem fromDigits?_singleton (acc : Nat) (c : Char) :
    fromDigits? acc [c] = (digitValue? c).map fun d => acc * 32 + d := by
  rw [fromDigits?]
  cases digitValue? c <;> rfl

/-- The digits of a number are read as the number, behind what was read before. -/
theorem fromDigits?_digits (acc count n : Nat) (h : n < 32 ^ count) :
    fromDigits? acc (digits count n) = some (acc * 32 ^ count + n) := by
  induction count generalizing n with
  | zero =>
      have none : n = 0 := by omega
      rw [none, digits, fromDigits?, Nat.pow_zero, Nat.mul_one, Nat.add_zero]
  | succ count ih =>
      have high : n / 32 < 32 ^ count := by rw [Nat.pow_succ] at h; omega
      have low : n % 32 < 32 := Nat.mod_lt n (by decide)
      rw [digits, fromDigits?_append, ih _ high, Option.bind_some, fromDigits?_singleton,
        (digitValue?_digitChar _ low).1, Option.map_some, Nat.pow_succ, ← Nat.mul_assoc]
      congr 1
      omega

theorem utf8ByteSize_digits (count n : Nat) :
    (String.ofList (digits count n)).utf8ByteSize = count := by
  induction count generalizing n with
  | zero => rfl
  | succ count ih =>
      have low : n % 32 < 32 := Nat.mod_lt n (by decide)
      rw [digits, String.ofList_append, String.utf8ByteSize_append, ih,
        ← String.singleton_eq_ofList, String.utf8ByteSize_singleton, (digitValue?_digitChar _ low).2]

theorem utf8ByteSize_text (u : Ulid) : u.text.utf8ByteSize = textLength :=
  utf8ByteSize_digits textLength u.toNat

theorem parse_text (u : Ulid) : parse u.text = .ok u := by
  have small : u.toNat < 32 ^ textLength := Nat.lt_trans u.isLt (by decide)
  rw [parse, utf8ByteSize_text, if_neg (by simp), text, String.toList_ofList,
    fromDigits?_digits _ _ _ small]
  refine congrArg Except.ok (ext_toNat ?_)
  rw [Nat.zero_mul, Nat.zero_add, ofNat]
  exact Nat.mod_eq_of_lt u.isLt

theorem text_injective {u v : Ulid} (h : u.text = v.text) : u = v := by
  have read : parse u.text = parse v.text := congrArg parse h
  rw [parse_text, parse_text] at read
  exact Except.ok.inj read

end Ulid

namespace Revision

theorem text_injective {r s : Revision} (h : r.text = s.text) : r = s := by
  cases r
  cases s
  exact congrArg mk (Ulid.text_injective h)

end Revision
end EventSourcing
