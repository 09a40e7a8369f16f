import EventSourcing.Proofs.Text.ByteOrder
import EventSourcing.Proofs.Text.Identifiers

/-!
The texts of revisions.
Digits in base 32 stand for their values in either case, and the upper-case ones are ordered as the
values are. So texts are ordered as the revisions are, and reading a text forgets its case and the
two highest of its 130 bits, and nothing else.
-/
namespace EventSourcing

namespace Ulid

/-- A digit or a letter, in either case, but not I, L, O or U. -/
def IsDigit (c : Char) : Prop :=
  (c.isDigit ∨ c.isUpper ∨ c.isLower) ∧ c.toUpper ∉ ['I', 'L', 'O', 'U']

instance (c : Char) : Decidable (IsDigit c) := inferInstanceAs (Decidable (_ ∧ _))

/-- The value of a digit. -/
def digitValue (c : Char) : Nat := (digitValue? c).getD 0

section Digit
variable {c : Char} {d e : Nat}

theorem not_isDigit_of_le (h : 128 ≤ c.toNat) : ¬ IsDigit c ∧ digitValue? c = none := by
  have above : ¬ c.val.toNat ≤ 'z'.val.toNat := by
    change 128 ≤ c.val.toNat at h
    change ¬ c.val.toNat ≤ 122
    omega
  have same : c.toUpper = c := dif_neg fun lower => above lower.2
  refine ⟨fun digit => ?_, ?_⟩
  · obtain ⟨digit | upper | lower, _⟩ := digit
    · have last : c.val.toNat ≤ 57 := of_decide_eq_true ((Bool.and_eq_true ..).mp digit).2
      exact above (Nat.le_trans last (by decide))
    · have last : c.val.toNat ≤ 90 := (of_decide_eq_true upper).2
      exact above (Nat.le_trans last (by decide))
    · exact above (of_decide_eq_true ((Bool.and_eq_true ..).mp lower).2)
  · have low : alphabet.all (fun x => decide (x.toNat < 128)) = true := by decide
    rw [digitValue?, same, List.idxOf?_eq_none_iff]
    intro member
    exact absurd (of_decide_eq_true (List.all_eq_true.1 low c member)) (Nat.not_lt.2 h)

/-- A digit is a byte, and in upper case it is the digit of its value. Nothing else has a value. -/
theorem isDigit_or_not (c : Char) :
    (IsDigit c ∧ ∃ d < 32, digitValue? c = some d ∧ digitChar d = c.toUpper ∧ c.utf8Size = 1) ∨
      ¬ IsDigit c ∧ digitValue? c = none := by
  have ascii : ∀ n < 128, (IsDigit (Char.ofNat n) ∧ ∃ d < 32, digitValue? (Char.ofNat n) = some d ∧
      digitChar d = (Char.ofNat n).toUpper ∧ (Char.ofNat n).utf8Size = 1) ∨
      ¬ IsDigit (Char.ofNat n) ∧ digitValue? (Char.ofNat n) = none := by
    decide +kernel
  by_cases small : c.toNat < 128
  · have here := ascii c.toNat small
    rwa [Char.ofNat_toNat] at here
  · exact .inr (not_isDigit_of_le (Nat.not_lt.1 small))

theorem value?_of_isDigit (h : IsDigit c) :
    ∃ d < 32, digitValue? c = some d ∧ digitChar d = c.toUpper ∧ c.utf8Size = 1 := by
  obtain ⟨_, found⟩ | ⟨other, _⟩ := isDigit_or_not c
  · exact found
  · exact absurd h other

/-- The digits of values are in upper case, and ordered as the values are. -/
theorem digitChar_spec (hd : d < 32) (he : e < 32) :
    (IsDigit (digitChar d) ∧ (digitChar d).isLower = false) ∧
      (digitChar d < digitChar e ↔ d < e) ∧ (digitChar d = digitChar e ↔ d = e) := by
  have all : ∀ d e : Fin 32, (IsDigit (digitChar d) ∧ (digitChar d).isLower = false) ∧
      (digitChar d < digitChar e ↔ d.val < e.val) ∧
      (digitChar d = digitChar e ↔ d.val = e.val) := by
    decide +kernel
  exact all ⟨d, hd⟩ ⟨e, he⟩

end Digit

section Digits
variable {n m : Nat}

theorem length_digits (count n : Nat) : (digits count n).length = count := by
  induction count generalizing n with
  | zero => rfl
  | succ count ih => rw [digits, List.length_append, ih, List.length_singleton]

/-- The highest of the digits comes first. -/
theorem digits_succ (count n : Nat) :
    digits (count + 1) n = digitChar (n / 32 ^ count % 32) :: digits count n := by
  induction count generalizing n with
  | zero =>
      rw [Nat.pow_zero, Nat.div_one]
      rfl
  | succ count ih =>
      rw [digits, ih, List.cons_append, Nat.div_div_eq_div_mul, ← Nat.pow_succ', digits]

/-- What is beyond the digits does not show in them. -/
theorem digits_add_mul (count n m : Nat) : digits count (n * 32 ^ count + m) = digits count m := by
  induction count generalizing m with
  | zero => rfl
  | succ count ih =>
      have shift : n * 32 ^ (count + 1) + m = 32 * (n * 32 ^ count) + m := by
        rw [Nat.pow_succ', Nat.mul_left_comm]
      rw [digits, digits, shift, Nat.mul_add_div (by decide), Nat.mul_add_mod, ih]

theorem isDigit_of_mem_digits (count n : Nat) :
    ∀ c ∈ digits count n, IsDigit c ∧ c.isLower = false := by
  induction count generalizing n with
  | zero => exact fun c hc => by cases hc
  | succ count ih =>
      rw [digits_succ, List.forall_mem_cons]
      have small : n / 32 ^ count % 32 < 32 := Nat.mod_lt _ (by decide)
      exact ⟨(digitChar_spec small small).1, ih n⟩

/-- The digits of numbers are ordered as the numbers are, as far as these show in them. -/
theorem digits_lt_digits_iff (count n m : Nat) :
    digits count n < digits count m ↔ n % 32 ^ count < m % 32 ^ count := by
  induction count with
  | zero => simp [digits, Nat.mod_one]
  | succ count ih =>
      have high : n / 32 ^ count % 32 < 32 := Nat.mod_lt _ (by decide)
      have high' : m / 32 ^ count % 32 < 32 := Nat.mod_lt _ (by decide)
      obtain ⟨_, less, same⟩ := digitChar_spec high high'
      rw [digits_succ, digits_succ, List.cons_lt_cons_iff, less, same, ih, Nat.mod_pow_succ,
        Nat.mod_pow_succ]
      have low : n % 32 ^ count < 32 ^ count := Nat.mod_lt _ (Nat.pow_pos (by decide))
      have low' : m % 32 ^ count < 32 ^ count := Nat.mod_lt _ (Nat.pow_pos (by decide))
      generalize n / 32 ^ count % 32 = x, m / 32 ^ count % 32 = y at *
      generalize n % 32 ^ count = v, m % 32 ^ count = w at *
      generalize 32 ^ count = p at *
      obtain below | rfl | above := Nat.lt_trichotomy x y
      · have apart : p * x + p ≤ p * y := Nat.mul_le_mul_left p below
        omega
      · omega
      · have apart : p * y + p ≤ p * x := Nat.mul_le_mul_left p above
        omega

end Digits

theorem text_lt_text_iff (u v : Ulid) : u.text < v.text ↔ u < v := by
  have size : Ulid.size < 32 ^ textLength := by decide
  have small (u : Ulid) : u.toNat % 32 ^ textLength = u.toNat :=
    Nat.mod_eq_of_lt (Nat.lt_trans u.isLt size)
  change u.text.toList < v.text.toList ↔ u.toNat < v.toNat
  rw [text, text, String.toList_ofList, String.toList_ofList, digits_lt_digits_iff, small, small]

/-- A text that has the length of an identifier and only digits. -/
def Readable (s : String) : Prop := s.utf8ByteSize = 26 ∧ ∀ c ∈ s.toList, IsDigit c

/-- Digits in upper case, where of the first only the three lowest bits count. -/
def folded : List Char → List Char
  | [] => []
  | c :: rest => digitChar (digitValue c % 8) :: rest.map Char.toUpper

section Reading
variable {cs : List Char} {s : String} {u : Ulid}

theorem utf8ByteSize_of_digits (h : ∀ c ∈ cs, IsDigit c) :
    (String.ofList cs).utf8ByteSize = cs.length := by
  induction cs with
  | nil => rfl
  | cons c rest ih =>
      obtain ⟨first, others⟩ := List.forall_mem_cons.1 h
      obtain ⟨_, _, _, _, byte⟩ := value?_of_isDigit first
      rw [String.ofList_cons, String.utf8ByteSize_append, String.utf8ByteSize_singleton, byte,
        ih others, List.length_cons, Nat.add_comm]

theorem Readable.length_eq (h : Readable s) : s.toList.length = 26 := by
  rw [← utf8ByteSize_of_digits h.2, String.ofList_toList, h.1]

/-- The digits of what is read are those that were read, in upper case. -/
theorem fromDigits?_of_digits (h : ∀ c ∈ cs, IsDigit c) (acc : Nat) :
    ∃ v < 32 ^ cs.length, fromDigits? acc cs = some (acc * 32 ^ cs.length + v) ∧
      digits cs.length v = cs.map Char.toUpper := by
  induction cs generalizing acc with
  | nil => exact ⟨0, by decide, by simp [fromDigits?], rfl⟩
  | cons c rest ih =>
      obtain ⟨first, others⟩ := List.forall_mem_cons.1 h
      obtain ⟨d, small, value, upper, _⟩ := value?_of_isDigit first
      obtain ⟨v, bound, read, written⟩ := ih others (acc * 32 + d)
      refine ⟨d * 32 ^ rest.length + v, ?_, ?_, ?_⟩
      · have room : (d + 1) * 32 ^ rest.length ≤ 32 * 32 ^ rest.length :=
          Nat.mul_le_mul_right _ small
        rw [List.length_cons, Nat.pow_succ']
        rw [Nat.add_mul] at room
        omega
      · rw [fromDigits?, value]
        simp only
        rw [read, List.length_cons, Nat.pow_succ', Nat.add_mul]
        congr 1
        rw [Nat.mul_assoc, Nat.add_assoc]
      · have place : (d * 32 ^ rest.length + v) / 32 ^ rest.length % 32 = d := by
          rw [Nat.mul_comm, Nat.mul_add_div (Nat.pow_pos (by decide)), Nat.div_eq_of_lt bound,
            Nat.add_zero, Nat.mod_eq_of_lt small]
        rw [List.length_cons, digits_succ, place, digits_add_mul, written, upper, List.map_cons]

theorem fromDigits?_eq_none {acc : Nat} {c : Char} (hc : c ∈ cs) (h : ¬ IsDigit c) :
    fromDigits? acc cs = none := by
  induction cs generalizing acc with
  | nil => cases hc
  | cons b rest ih =>
      rw [fromDigits?]
      obtain ⟨digit, d, _, value, _⟩ | ⟨_, none⟩ := isDigit_or_not b
      · rw [value]
        obtain rfl | later := List.mem_cons.1 hc
        · exact absurd digit h
        · exact ih later
      · rw [none]

/-- What is read from a text is printed as the text, up to what reading forgets. -/
theorem parse_of_readable (h : Readable s) :
    ∃ u, parse s = .ok u ∧ u.text.toList = folded s.toList := by
  have length := h.length_eq
  cases hs : s.toList with
  | nil =>
      rw [hs] at length
      cases length
  | cons c rest =>
      rw [hs, List.length_cons] at length
      obtain ⟨first, others⟩ := List.forall_mem_cons.1 (hs ▸ h.2)
      obtain ⟨d, small, value, _⟩ := value?_of_isDigit first
      obtain ⟨v, bound, read, written⟩ := fromDigits?_of_digits others d
      have count : rest.length = 25 := Nat.succ.inj length
      rw [count] at bound read written
      refine ⟨ofNat (d * 32 ^ 25 + v), ?_, ?_⟩
      · rw [parse, h.1, if_neg (by decide), hs, fromDigits?, value]
        simp only [Nat.zero_mul, Nat.zero_add]
        rw [read]
      · have low : (ofNat (d * 32 ^ 25 + v)).toNat = d % 8 * 32 ^ 25 + v := by
          simp only [ofNat, size]
          omega
        have place : (d % 8 * 32 ^ 25 + v) / 32 ^ 25 % 32 = d % 8 := by
          omega
        rw [text, String.toList_ofList, low, textLength, digits_succ, place, digits_add_mul,
          written, folded, digitValue, value, Option.getD_some]

theorem readable_of_parse (h : parse s = .ok u) : Readable s := by
  rw [parse] at h
  split at h
  · cases h
  · rename_i size
    refine ⟨Decidable.not_not.1 size, fun c hc => ?_⟩
    refine Decidable.not_not.1 fun other => ?_
    rw [fromDigits?_eq_none hc other] at h
    cases h

/-- A text is read as the identifier that is printed as the text is, up to what reading forgets. -/
theorem parse_eq_ok_iff : parse s = .ok u ↔ Readable s ∧ u.text.toList = folded s.toList := by
  constructor
  · intro h
    have readable := readable_of_parse h
    obtain ⟨v, read, printed⟩ := parse_of_readable readable
    rw [h] at read
    cases read
    exact ⟨readable, printed⟩
  · rintro ⟨readable, printed⟩
    obtain ⟨v, read, printed'⟩ := parse_of_readable readable
    have same : u = v := text_injective (String.toList_injective (printed.trans printed'.symm))
    rw [same, read]

end Reading
end Ulid

namespace Revision

theorem parse_eq_ok_iff {s : String} {r : Revision} :
    parse s = .ok r ↔ Ulid.Readable s ∧ r.text.toList = Ulid.folded s.toList := by
  rw [text, ← Ulid.parse_eq_ok_iff, parse]
  cases h : Ulid.parse s with
  | error e => simp [Except.map]
  | ok u =>
      obtain ⟨v⟩ := r
      simp [Except.map]

/-- The first digits have the same three lowest bits, and the others are the same up to case. -/
def ReadAlike (s t : String) : Prop :=
  s.toList.head?.map (Ulid.digitValue · % 8) = t.toList.head?.map (Ulid.digitValue · % 8) ∧
    s.toList.tail.map Char.toUpper = t.toList.tail.map Char.toUpper

instance (s t : String) : Decidable (ReadAlike s t) := inferInstanceAs (Decidable (_ ∧ _))

theorem folded_eq_folded_iff {s t : String} (hs : Ulid.Readable s) (ht : Ulid.Readable t) :
    Ulid.folded s.toList = Ulid.folded t.toList ↔ ReadAlike s t := by
  have length := hs.length_eq
  have length' := ht.length_eq
  rw [ReadAlike]
  cases hc : s.toList with
  | nil =>
      rw [hc] at length
      cases length
  | cons c cs =>
      cases hd : t.toList with
      | nil =>
          rw [hd] at length'
          cases length'
      | cons d ds =>
          have small : Ulid.digitValue c % 8 < 32 := by omega
          have small' : Ulid.digitValue d % 8 < 32 := by omega
          rw [Ulid.folded, Ulid.folded, List.cons.injEq, (Ulid.digitChar_spec small small').2.2,
            List.head?_cons, List.head?_cons, Option.map_some, Option.map_some, Option.some.injEq,
            List.tail_cons, List.tail_cons]

/-- The text of a revision has 26 digits in upper case, it is read back as the revision, and texts
are ordered by their bytes as the revisions are. Any text of 26 digits in either case can be read,
and no other. It is printed again in upper case and without the two highest bits of the first digit,
and two texts are read as one revision just where they differ in nothing else. -/
theorem text_is_an_ordered_code :
    (∀ r : Revision, r.text.toList.length = 26 ∧
      (∀ c ∈ r.text.toList, Ulid.IsDigit c ∧ c.isLower = false) ∧ parse r.text = .ok r) ∧
    (∀ r s : Revision, r < s ↔ Text.bytes r.text < Text.bytes s.text) ∧
    (∀ s, (∃ r, parse s = .ok r) ↔ s.utf8ByteSize = 26 ∧ ∀ c ∈ s.toList, Ulid.IsDigit c) ∧
    (∀ s r, parse s = .ok r ↔ (∃ r, parse s = .ok r) ∧ r.text.toList = Ulid.folded s.toList) ∧
    ∀ s t, (∃ r, parse s = .ok r ∧ parse t = .ok r) ↔
      (∃ r, parse s = .ok r) ∧ (∃ r, parse t = .ok r) ∧ ReadAlike s t := by
  have readable (s : String) : (∃ r, parse s = .ok r) ↔ Ulid.Readable s := by
    constructor
    · rintro ⟨r, read⟩
      exact (parse_eq_ok_iff.1 read).1
    · intro h
      obtain ⟨u, _, printed⟩ := Ulid.parse_of_readable h
      exact ⟨⟨u⟩, parse_eq_ok_iff.2 ⟨h, printed⟩⟩
  refine ⟨fun r => ⟨?_, ?_, ?_⟩, fun r s => ?_, readable, fun s r => ?_, fun s t => ?_⟩
  · rw [text, Ulid.text, String.toList_ofList, Ulid.length_digits, Ulid.textLength]
  · rw [text, Ulid.text, String.toList_ofList]
    exact Ulid.isDigit_of_mem_digits _ _
  · rw [text, parse, Ulid.parse_text]
    rfl
  · rw [← Text.lt_iff_bytes_lt, text, text, Ulid.text_lt_text_iff]
    rfl
  · rw [readable, parse_eq_ok_iff]
  · rw [readable, readable]
    constructor
    · rintro ⟨r, hs, ht⟩
      obtain ⟨readable_s, printed⟩ := parse_eq_ok_iff.1 hs
      obtain ⟨readable_t, printed'⟩ := parse_eq_ok_iff.1 ht
      refine ⟨readable_s, readable_t, (folded_eq_folded_iff readable_s readable_t).1 ?_⟩
      rw [← printed, printed']
    · rintro ⟨readable_s, readable_t, alike⟩
      obtain ⟨u, _, printed⟩ := Ulid.parse_of_readable readable_s
      rw [← folded_eq_folded_iff readable_s readable_t] at alike
      exact ⟨⟨u⟩, parse_eq_ok_iff.2 ⟨readable_s, printed⟩,
        parse_eq_ok_iff.2 ⟨readable_t, printed.trans alike⟩⟩

/-- A text in lower case is read although its first digit is beyond the greatest, and it is read as
the one in upper case without the two bits too many. -/
theorem lower_case_is_read :
    let s := "zzzzzzzzzzzzzzzzzzzzzzzzzz"
    let t := "7ZZZZZZZZZZZZZZZZZZZZZZZZZ"
    ∃ r, parse s = .ok r ∧ parse t = .ok r ∧ r.text = t := by
  intro s t
  obtain ⟨_, _, readable, printed, alike⟩ := text_is_an_ordered_code
  have digits : (s.toList ++ t.toList).all (fun c => decide (Ulid.IsDigit c)) = true := by
    decide +kernel
  have digit (c : Char) (member : c ∈ s.toList ++ t.toList) : Ulid.IsDigit c :=
    of_decide_eq_true (List.all_eq_true.1 digits c member)
  have hs : ∃ r, parse s = .ok r :=
    (readable s).2 ⟨rfl, fun c member => digit c (List.mem_append_left _ member)⟩
  have ht : ∃ r, parse t = .ok r :=
    (readable t).2 ⟨rfl, fun c member => digit c (List.mem_append_right _ member)⟩
  have same : ReadAlike s t := by decide +kernel
  obtain ⟨r, read, read'⟩ := (alike s t).2 ⟨hs, ht, same⟩
  refine ⟨r, read, read', String.toList_injective ?_⟩
  rw [((printed t r).1 read').2]
  decide +kernel

end Revision
end EventSourcing
