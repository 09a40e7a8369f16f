import Mathlib.Algebra.GroupWithZero.Nat
import EventSourcing.Proofs.Timestamp.Calendar
import EventSourcing.Timestamp.Rfc3339

/-!
The text of an instant.
Each part of the text is read back as the number that was written, and what follows it is left for
the next part. So an instant of the years 0 to 9999 is read back from its text.
-/
namespace EventSourcing

theorem Text.trimLeft_of_isDigit {c : Char} (h : c.isDigit = true) (cs : List Char) :
    trimLeft (c :: cs) = c :: cs := by
  have solid : isBlank c = false := by
    simp only [Char.isDigit, Bool.and_eq_true, decide_eq_true_eq, UInt32.le_iff_toNat_le] at h
    change 48 ≤ c.toNat ∧ c.toNat ≤ 57 at h
    simp only [isBlank, Bool.or_eq_false_iff, Bool.and_eq_false_iff, beq_eq_false_iff_ne,
      decide_eq_false_iff_not]
    omega
  rw [trimLeft, List.dropWhile_cons, solid]
  rfl

namespace Timestamp

section Numbers
variable {width limit n acc : Nat} {ds rest : List Char}

theorem isDigit_of_mem_padded (width n : Nat) : ∀ c ∈ padded width n, c.isDigit = true := by
  intro c hc
  rw [padded] at hc
  obtain zero | digit := List.mem_append.1 hc
  · rw [(List.mem_replicate.1 zero).2]
    rfl
  · exact Nat.isDigit_of_mem_toDigits (by decide) (by decide) digit

theorem length_padded (some : 0 < width) (fits : n < 10 ^ width) :
    (padded width n).length = width := by
  have length := (Nat.length_toDigits_le_iff (by decide) some).2 fits
  rw [padded, List.length_append, List.length_replicate, Nat.sub_add_cancel length]

theorem ofDigitChars_padded (width n : Nat) : Nat.ofDigitChars 10 (padded width n) 0 = n := by
  rw [padded, Nat.ofDigitChars_append, Nat.ofDigitChars_replicate_zero, Nat.mul_zero,
    Nat.ofDigitChars_toDigits (by decide) (by decide)]

theorem le_ofDigitChars (ds : List Char) (acc : Nat) : acc ≤ Nat.ofDigitChars 10 ds acc := by
  induction ds generalizing acc with
  | nil => exact Nat.le_refl acc
  | cons c ds ih =>
      rw [Nat.ofDigitChars_cons]
      exact Nat.le_trans (by omega) (ih _)

/-- As many digits as are allowed, or digits and then something else. -/
theorem numberFrom_append (acc : Nat) (digits : ∀ c ∈ ds, c.isDigit = true)
    (fits : ds.length ≤ limit) (stops : ds.length = limit ∨ ∀ c ∈ rest.head?, c.isDigit = false)
    (small : Nat.ofDigitChars 10 ds acc < Word.count 63) :
    numberFrom acc limit (ds ++ rest) = .ok (Nat.ofDigitChars 10 ds acc, rest) := by
  induction ds generalizing acc limit with
  | nil =>
      cases limit with
      | zero => rfl
      | succ limit =>
          cases rest with
          | nil => rfl
          | cons c rest =>
              obtain full | other := stops
              · cases full
              · simp [numberFrom, other c rfl, Nat.ofDigitChars]
  | cons c ds ih =>
      cases limit with
      | zero => exact absurd fits (Nat.not_succ_le_zero _)
      | succ limit =>
          obtain ⟨first, others⟩ := List.forall_mem_cons.1 digits
          have next : Nat.ofDigitChars 10 (c :: ds) acc =
              Nat.ofDigitChars 10 ds (acc * 10 + (c.toNat - 48)) := by
            rw [Nat.ofDigitChars_cons, Nat.mul_comm]
            rfl
          rw [next] at small
          have room := Nat.lt_of_le_of_lt (le_ofDigitChars ds _) small
          rw [next, List.cons_append, numberFrom, if_pos first, if_pos room]
          exact ih _ others (Nat.le_of_succ_le_succ fits) (stops.imp Nat.succ.inj id) small

theorem number_padded (some : 0 < width) (fits : n < 10 ^ width) (room : width ≤ limit)
    (short : width ≤ 9) (stops : width = limit ∨ ∀ c ∈ rest.head?, c.isDigit = false) :
    number limit (padded width n ++ rest) = .ok (n, rest) := by
  have length := length_padded some fits
  have digits := isDigit_of_mem_padded width n
  have small : Nat.ofDigitChars 10 (padded width n) 0 < Word.count 63 := by
    have most : 10 ^ width ≤ 10 ^ 9 := Nat.pow_le_pow_right (by decide) short
    rw [ofDigitChars_padded]
    exact Nat.lt_trans (Nat.lt_of_lt_of_le fits most) (by decide)
  have read : numberFrom 0 limit (padded width n ++ rest) = .ok (n, rest) := by
    rw [numberFrom_append 0 digits (by omega) (by rwa [length]) small, ofDigitChars_padded]
  cases h : padded width n with
  | nil =>
      rw [h] at length
      exact absurd length (Nat.ne_of_lt some)
  | cons c cs =>
      rw [h] at digits read
      rw [List.cons_append, number, if_pos (digits c List.mem_cons_self)]
      exact read

/-- What is written with digits starts with one, so there is nothing to trim. -/
theorem padded_cons (some : 0 < width) (fits : n < 10 ^ width) (rest : List Char) :
    ∃ c cs, padded width n ++ rest = c :: cs ∧ c.isDigit = true := by
  have length := length_padded some fits
  cases h : padded width n with
  | nil =>
      rw [h] at length
      exact absurd length (Nat.ne_of_lt some)
  | cons c cs =>
      have digits := isDigit_of_mem_padded width n
      rw [h] at digits
      exact ⟨c, cs ++ rest, rfl, digits c List.mem_cons_self⟩

theorem trimLeft_padded (some : 0 < width) (fits : n < 10 ^ width) (rest : List Char) :
    Text.trimLeft (padded width n ++ rest) = padded width n ++ rest := by
  obtain ⟨c, cs, h, digit⟩ := padded_cons some fits rest
  rw [h, Text.trimLeft_of_isDigit digit]

end Numbers

section Parts
variable {n : Nat} (rest : List Char)

theorem part_padded {low high : Nat} (least : low ≤ n) (most : n ≤ high) (fits : high < 100) :
    part low high (padded 2 n ++ rest) = .ok (n, rest) := by
  have small : n < 10 ^ 2 := Nat.lt_of_le_of_lt most fits
  have read : number 2 (padded 2 n ++ rest) = .ok (n, rest) :=
    number_padded (by decide) small (Nat.le_refl 2) (by decide) (.inl rfl)
  rw [part, trimLeft_padded (by decide) small, read]
  exact if_pos ⟨least, most⟩

theorem yearPart_yearText {y : Int} (least : 0 ≤ y) (most : y ≤ 9999) :
    yearPart (yearText y ++ rest) = .ok (y, rest) := by
  have small : y.toNat < 10 ^ 4 := by omega
  have read : number 4 (padded 4 y.toNat ++ rest) = .ok (y.toNat, rest) :=
    number_padded (by decide) small (Nat.le_refl 4) (by decide) (.inl rfl)
  have back : (y.toNat : Int) = y := Int.toNat_of_nonneg least
  obtain ⟨c, cs, h, digit⟩ := padded_cons (by decide) small rest
  rw [yearText, if_pos ⟨least, most⟩, yearPart, trimLeft_padded (by decide) small]
  rw [h] at read ⊢
  split
  · rename_i sign
    rw [(List.cons.inj sign).1] at digit
    cases digit
  · rename_i sign
    rw [(List.cons.inj sign).1] at digit
    cases digit
  · rw [read]
    simp only [Except.map, bind, Except.bind, back]
    rw [if_pos]
    simp only [Word.leastInt32, Word.greatestInt32]
    omega

theorem mark_cons {c : Char} (solid : Text.isBlank c = false) : mark c (c :: rest) = .ok rest := by
  rw [mark, Text.trimLeft, List.dropWhile_cons, solid]
  exact if_pos rfl

theorem fractionPart_fractionText (small : n < 1000000000) :
    fractionPart (fractionText n ++ ['Z']) = .ok (n, ['Z']) := by
  have decimals (width m : Nat) (some : 0 < width) (short : width ≤ 9) (fits : m < 10 ^ width) :
      fractionPart ('.' :: padded width m ++ ['Z']) = .ok (m * 10 ^ (9 - width), ['Z']) := by
    have read : number 9 (padded width m ++ ['Z']) = .ok (m, ['Z']) :=
      number_padded some fits short short (.inr fun c hc => by cases hc; rfl)
    have length : (padded width m ++ ['Z']).length - ['Z'].length = width := by
      rw [List.length_append, Nat.add_sub_cancel, length_padded some fits]
    rw [List.cons_append, fractionPart, read]
    simp only [bind, Except.bind, length]
    rfl
  rw [fractionText]
  split
  · rename_i none
    rw [none]
    rfl
  · split
    · rw [decimals 3 _ (by decide) (by decide) (by omega)]
      congr 2
      omega
    · split
      · rw [decimals 6 _ (by decide) (by decide) (by omega)]
        congr 2
        omega
      · rw [decimals 9 _ (by decide) (by decide) small, Nat.sub_self, Nat.pow_zero, Nat.mul_one]

/-- A text of all parts is read as the date and the time that they name. -/
theorem parse_parts {y : Int} {month day hour minute second nanos : Nat}
    (year : 0 ≤ y ∧ y ≤ 9999) (month_mem : 1 ≤ month ∧ month ≤ 12) (day_mem : 1 ≤ day ∧ day ≤ 31)
    (hour_le : hour ≤ 23) (minute_le : minute ≤ 59) (second_le : second ≤ 60)
    (fraction : nanos < 1000000000) :
    parse (String.ofList (yearText y ++ '-' :: padded 2 month ++ '-' :: padded 2 day ++
      'T' :: padded 2 hour ++ ':' :: padded 2 minute ++ ':' :: padded 2 second ++
      fractionText nanos ++ ['Z'])) = ofLocal ⟨y, month, day⟩ hour minute second nanos 0 := by
  have dash (rest : List Char) : mark '-' ('-' :: rest) = .ok rest := mark_cons rest rfl
  have colon (rest : List Char) : mark ':' (':' :: rest) = .ok rest := mark_cons rest rfl
  have between (rest : List Char) : dateMark ('T' :: rest) = .ok rest := rfl
  have zone : zonePart (Text.trimLeft ['Z']) = .ok (0, []) := rfl
  rw [parse, String.toList_ofList]
  simp only [List.append_assoc, List.cons_append, bind, Except.bind,
    yearPart_yearText _ year.1 year.2, dash, part_padded _ month_mem.1 month_mem.2 (by decide),
    part_padded _ day_mem.1 day_mem.2 (by decide), between,
    part_padded _ (Nat.zero_le _) hour_le (by decide), colon,
    part_padded _ (Nat.zero_le _) minute_le (by decide),
    part_padded _ (Nat.zero_le _) second_le (by decide), fractionPart_fractionText fraction, zone]
  rfl

end Parts

/-- A nanosecond of a second of time, or of a leap second, which follows the last second of a
minute. -/
def IsInstant (t : Timestamp) : Prop :=
  t.nanos < 1000000000 ∨ t.nanos < 2000000000 ∧ t.seconds % 60 = 59

/-- The year of an instant. -/
def year (t : Timestamp) : Int := (Date.ofDays t.day).year

section Text
variable {t : Timestamp}

theorem seconds_eq (t : Timestamp) : t.seconds = t.day * secondsPerDay + t.secondOfDay := by
  have nonneg : 0 ≤ t.seconds.fmod secondsPerDay := Int.fmod_nonneg_of_pos _ (by decide)
  rw [secondOfDay, Int.toNat_of_nonneg nonneg, day, Int.mul_comm, Int.mul_fdiv_add_fmod]

theorem secondOfDay_lt (t : Timestamp) : t.secondOfDay < 86400 := by
  have most : t.seconds.fmod secondsPerDay < secondsPerDay := Int.fmod_lt_of_pos _ (by decide)
  rw [secondOfDay]
  simp only [secondsPerDay] at *
  omega

/-- A date and a time of day at Greenwich are those of an instant if they count its seconds. -/
theorem ofLocal_eq {hour minute second nanos : Nat} (least : firstYear ≤ t.year)
    (most : t.year ≤ lastYear)
    (seconds : hour * 3600 + minute * 60 + min second 59 = t.secondOfDay)
    (fraction : (if second = 60 then nanos + 1000000000 else nanos) = t.nanos) :
    ofLocal (Date.ofDays t.day) hour minute second nanos 0 = .ok t := by
  have same : Timestamp.mk
      (t.day * secondsPerDay + ((hour : Int) * 3600 + minute * 60 + (min second 59 : Nat)) - 0)
      (if second = 60 then nanos + 1000000000 else nanos) = t := by
    have whole := seconds_eq t
    obtain ⟨s, n⟩ := t
    rw [mk.injEq]
    refine ⟨?_, fraction⟩
    dsimp only at *
    omega
  rw [ofLocal, valid_ofDays least most, toDays_ofDays, if_neg (by decide), if_neg (by decide)]
  dsimp only
  rw [same]
  exact if_pos ⟨least, most⟩

/-- An instant of the years 0 to 9999 is read back from its text. -/
theorem parse_text (instant : t.IsInstant) (least : 0 ≤ t.year) (most : t.year ≤ 9999) :
    parse t.text = .ok t := by
  have first : firstYear ≤ t.year := Int.le_trans (by decide) least
  have last : t.year ≤ lastYear := Int.le_trans most (by decide)
  have ofDay := secondOfDay_lt t
  have date := valid_ofDays first last
  simp only [Date.valid, Bool.and_eq_true, decide_eq_true_eq] at date
  obtain ⟨⟨⟨⟨_, month⟩, month'⟩, day⟩, day'⟩ := date
  have day_le : (Date.ofDays t.day).day ≤ 31 := by
    refine Nat.le_trans day' ?_
    rw [daysInMonth]
    split
    · split <;> decide
    · split <;> decide
  have hour : t.secondOfDay / 3600 ≤ 23 := by omega
  have minute : t.secondOfDay / 60 % 60 ≤ 59 := by omega
  have whole := seconds_eq t
  simp only [secondsPerDay] at whole
  have split_day : t.secondOfDay / 3600 * 3600 + t.secondOfDay / 60 % 60 * 60 + t.secondOfDay % 60 =
      t.secondOfDay := by
    omega
  rw [text]
  by_cases leap : 1000000000 ≤ t.nanos
  · have late : t.secondOfDay % 60 = 59 := by
      rw [IsInstant] at instant
      omega
    have fraction : t.nanos - 1000000000 < 1000000000 := by
      rw [IsInstant] at instant
      omega
    simp only [if_pos leap, late]
    refine (parse_parts ⟨least, most⟩ ⟨month, month'⟩ ⟨day, day_le⟩ hour minute (by decide)
      fraction).trans (ofLocal_eq first last ?_ ?_)
    · omega
    · exact Nat.sub_add_cancel leap
  · have second : t.secondOfDay % 60 < 60 := Nat.mod_lt _ (by decide)
    simp only [if_neg leap, Nat.add_zero]
    refine (parse_parts ⟨least, most⟩ ⟨month, month'⟩ ⟨day, day_le⟩ hour minute
      (Nat.le_of_lt second) (Nat.not_le.1 leap)).trans (ofLocal_eq first last ?_ ?_)
    · omega
    · exact if_neg (Nat.ne_of_lt second)

end Text

end Timestamp
end EventSourcing
