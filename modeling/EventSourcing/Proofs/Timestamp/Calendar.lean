import EventSourcing.Timestamp

/-!
The calendar.
Counted from March, four hundred years have the same number of days each time, and so have the
centuries, the groups of four years and the years in them, but for a day at the end of some. So each
day has one place, which its number tells, and the date of the place is the date of the day.
-/
namespace EventSourcing.Timestamp

/-- The place of a day in its four hundred years: its century, its group of four years, its year and
its day of the year. -/
structure Place (day : Int) where
  century : Int
  group : Int
  year : Int
  dayOfYear : Int
  century_mem : 0 ≤ century ∧ century ≤ 3
  group_mem : 0 ≤ group ∧ group ≤ 24
  year_mem : 0 ≤ year ∧ year ≤ 3
  dayOfYear_mem : 0 ≤ dayOfYear ∧ dayOfYear ≤ 365
  /-- A leap day ends the last year of a group, but of the last group only in the last century. -/
  leap : dayOfYear = 365 → year = 3 ∧ (group = 24 → century = 3)
  day_eq : day = 36524 * century + 1461 * group + 365 * year + dayOfYear

theorem exists_place {day : Int} (least : 0 ≤ day) (most : day < 146097) :
    Nonempty (Place day) := by
  let century := min (day / 36524) 3
  let ofCentury := day - 36524 * century
  let group := ofCentury / 1461
  let ofGroup := ofCentury - 1461 * group
  let year := min (ofGroup / 365) 3
  have inCentury : 0 ≤ century ∧ century ≤ 3 ∧ 0 ≤ ofCentury ∧ ofCentury ≤ 36524 ∧
      (ofCentury = 36524 → century = 3) := by
    omega
  have inGroup : 0 ≤ group ∧ group ≤ 24 ∧ 0 ≤ ofGroup ∧ ofGroup ≤ 1460 := by omega
  refine ⟨century, group, year, ofGroup - 365 * year, ?_, ?_, ?_, ?_, ?_, ?_⟩
  all_goals omega

namespace Place
variable {day : Int} (p : Place day)

/-- The year of the four hundred. -/
def yearOfEra : Int := 100 * p.century + 4 * p.group + p.year

theorem yearOfEra_eq : (day - day / 1460 + day / 36524 - day / 146096) / 365 = p.yearOfEra := by
  obtain ⟨c, g, y, d, hc, hg, hy, hd, leap, eq⟩ := p
  rw [yearOfEra]
  dsimp only
  have last : day / 36524 = c ∧ day / 146096 = 0 ∨ day / 36524 = c + 1 ∧ day / 146096 = 1 := by
    by_cases whole : 1461 * g + 365 * y + d = 36524
    · have last : day = 146096 := by omega
      subst last
      right
      omega
    · have within : 1461 * g + 365 * y + d ≤ 36523 := by omega
      left
      omega
  have groups : day / 1460 = 25 * c + g + (24 * c + g + 365 * y + d) / 1460 := by omega
  omega

theorem dayOfYear_eq :
    day - (365 * p.yearOfEra + p.yearOfEra / 4 - p.yearOfEra / 100) = p.dayOfYear := by
  obtain ⟨c, g, y, d, hc, hg, hy, hd, leap, eq⟩ := p
  rw [yearOfEra]
  dsimp only
  have groups : (100 * c + 4 * g + y) / 4 = 25 * c + g := by omega
  have centuries : (100 * c + 4 * g + y) / 100 = c := by omega
  omega

theorem yearOfEra_mem : 0 ≤ p.yearOfEra ∧ p.yearOfEra < 400 := by
  obtain ⟨c, g, y, d, hc, hg, hy, hd, leap, eq⟩ := p
  rw [yearOfEra]
  dsimp only
  omega

theorem isLeapYear (era : Int) (last : p.dayOfYear = 365) :
    isLeapYear (p.yearOfEra + era * 400 + 1) = true := by
  obtain ⟨c, g, y, d, hc, hg, hy, hd, leap, eq⟩ := p
  obtain ⟨rfl, century⟩ := leap last
  rw [yearOfEra, Timestamp.isLeapYear, Bool.and_eq_true, Bool.or_eq_true, decide_eq_true_eq,
    decide_eq_true_eq, decide_eq_true_eq]
  dsimp only
  omega

end Place

/-- The date of a day, where the years and the days in them are counted from March. -/
def marchDate (year dayOfYear : Int) : Date :=
  let month := (5 * dayOfYear + 2) / 153
  ⟨if month < 10 then year else year + 1, (if month < 10 then month + 3 else month - 9).toNat,
    (dayOfYear - (153 * month + 2) / 5 + 1).toNat⟩

/-- A month but the last has the days from its start to the start of the next. -/
theorem daysInMonth_march (year : Int) {month : Int} (least : 0 ≤ month) (most : month ≤ 10) :
    daysInMonth year (if month < 10 then month + 3 else month - 9).toNat =
      ((153 * (month + 1) + 2) / 5 - (153 * month + 2) / 5).toNat := by
  have months : month = 0 ∨ month = 1 ∨ month = 2 ∨ month = 3 ∨ month = 4 ∨ month = 5 ∨
      month = 6 ∨ month = 7 ∨ month = 8 ∨ month = 9 ∨ month = 10 := by omega
  obtain rfl | rfl | rfl | rfl | rfl | rfl | rfl | rfl | rfl | rfl | rfl := months <;> rfl

section March
variable (year : Int) {dayOfYear : Int} (least : 0 ≤ dayOfYear) (most : dayOfYear ≤ 365)
include least most

theorem toDays_marchDate :
    (marchDate year dayOfYear).toDays =
      let era := year.fdiv 400
      let yearOfEra := year - era * 400
      era * 146097 + yearOfEra * 365 + yearOfEra / 4 - yearOfEra / 100 + dayOfYear - 719468 := by
  have inYear : 0 ≤ (5 * dayOfYear + 2) / 153 ∧ (5 * dayOfYear + 2) / 153 ≤ 11 := by omega
  have inMonth : 0 ≤ dayOfYear - (153 * ((5 * dayOfYear + 2) / 153) + 2) / 5 := by omega
  rw [marchDate, Date.toDays]
  dsimp only
  generalize (5 * dayOfYear + 2) / 153 = month at *
  by_cases late : month < 10
  · have m : ¬ (month + 3).toNat ≤ 2 := by omega
    simp only [if_pos late, if_neg m]
    omega
  · have m : (month - 9).toNat ≤ 2 := by omega
    simp only [if_neg late, if_pos m, Int.add_sub_cancel]
    omega

theorem month_marchDate :
    1 ≤ (marchDate year dayOfYear).month ∧ (marchDate year dayOfYear).month ≤ 12 := by
  have inYear : 0 ≤ (5 * dayOfYear + 2) / 153 ∧ (5 * dayOfYear + 2) / 153 ≤ 11 := by omega
  rw [marchDate]
  dsimp only
  omega

/-- The last month is February, which has its last day in leap years only. -/
theorem day_marchDate (leap : dayOfYear = 365 → isLeapYear (year + 1) = true) :
    1 ≤ (marchDate year dayOfYear).day ∧
      (marchDate year dayOfYear).day ≤
        daysInMonth (marchDate year dayOfYear).year (marchDate year dayOfYear).month := by
  rw [marchDate]
  dsimp only
  refine ⟨by omega, ?_⟩
  by_cases last : (5 * dayOfYear + 2) / 153 = 11
  · rw [last]
    change _ ≤ if isLeapYear (year + 1) then 29 else 28
    by_cases leapDay : dayOfYear = 365
    · rw [leap leapDay, if_pos rfl]
      omega
    · split <;> omega
  · rw [daysInMonth_march _ (by omega) (by omega)]
    omega

end March

theorem ofDays_eq (days : Int) : ∃ era, ∃ p : Place (days + 719468 - era * 146097),
    Date.ofDays days = marchDate (p.yearOfEra + era * 400) p.dayOfYear := by
  let era := (days + 719468) / 146097
  have bounds : 0 ≤ days + 719468 - era * 146097 ∧ days + 719468 - era * 146097 < 146097 := by omega
  obtain ⟨p⟩ := exists_place bounds.1 bounds.2
  refine ⟨era, p, ?_⟩
  rw [Date.ofDays, Int.fdiv_eq_ediv_of_nonneg _ (by decide)]
  rw [show (days + 719468) / 146097 = era from rfl, p.yearOfEra_eq, p.dayOfYear_eq, marchDate]
  have mem := p.dayOfYear_mem
  congr 1
  split <;> omega

theorem toDays_ofDays (days : Int) : (Date.ofDays days).toDays = days := by
  obtain ⟨era, p, date⟩ := ofDays_eq days
  have era_eq : (p.yearOfEra + era * 400).fdiv 400 = era := by
    rw [Int.fdiv_eq_ediv_of_nonneg _ (by decide)]
    have := p.yearOfEra_mem
    omega
  have place := p.dayOfYear_eq
  rw [date, toDays_marchDate _ p.dayOfYear_mem.1 p.dayOfYear_mem.2, era_eq]
  dsimp only
  rw [Int.add_sub_cancel]
  omega

/-- The days of the calendar are days that exist. -/
theorem valid_ofDays {days : Int} (least : firstYear ≤ (Date.ofDays days).year)
    (most : (Date.ofDays days).year ≤ lastYear) : (Date.ofDays days).valid = true := by
  obtain ⟨era, p, date⟩ := ofDays_eq days
  have leap : p.dayOfYear = 365 → isLeapYear (p.yearOfEra + era * 400 + 1) = true :=
    p.isLeapYear era
  have month := month_marchDate (p.yearOfEra + era * 400) p.dayOfYear_mem.1 p.dayOfYear_mem.2
  have day := day_marchDate _ p.dayOfYear_mem.1 p.dayOfYear_mem.2 leap
  rw [← date] at month day
  simp only [Date.valid, Bool.and_eq_true, decide_eq_true_eq]
  exact ⟨⟨⟨⟨⟨least, most⟩, month.1⟩, month.2⟩, day.1⟩, day.2⟩

end EventSourcing.Timestamp
