import Daybook.Calendar.Date

/-! # Year, month and day

The year, the month and the day of the month of a day name that day and no other one, and every year,
month and day of the month that there are name a day. -/

namespace Daybook

namespace Civil

/-! ## Rows of months -/

section Months

variable {lengths : List Nat} {index offset length days : Nat}

@[simp]
theorem daysOf_cons (length : Nat) (lengths : List Nat) :
    daysOf (length :: lengths) = length + daysOf lengths :=
  rfl

/-- The months up to a month are no longer than all of them. -/
theorem daysOf_take_add_le (h : lengths[index]? = some length) :
    daysOf (lengths.take index) + length ≤ daysOf lengths := by
  induction lengths generalizing index with
  | nil => simp at h
  | cons first lengths ih =>
    cases index with
    | zero =>
      obtain rfl : first = length := by simpa using h
      simp [daysOf]
    | succ index =>
      have hrest := ih (by simpa using h)
      rw [List.take_succ_cons, daysOf_cons, daysOf_cons]
      omega

/-- Every day of the row lies in one of its months. -/
theorem exists_month (h : days < daysOf lengths) : ∃ index offset length,
    lengths[index]? = some length ∧ offset < length ∧ days = daysOf (lengths.take index) + offset := by
  induction lengths generalizing days with
  | nil => exact absurd h (Nat.not_lt_zero _)
  | cons first lengths ih =>
    rw [daysOf_cons] at h
    by_cases hfirst : days < first
    · exact ⟨0, days, first, rfl, hfirst, (Nat.zero_add _).symm⟩
    · have hrest : days - first < daysOf lengths := by omega
      obtain ⟨index, offset, length, hlength, hoffset, hdays⟩ := ih hrest
      refine ⟨index + 1, offset, length, hlength, hoffset, ?_⟩
      rw [List.take_succ_cons, daysOf_cons]
      omega

theorem monthAndDay_daysOf_take (h : lengths[index]? = some length) (hoffset : offset < length) :
    monthAndDay lengths (daysOf (lengths.take index) + offset) = (index + 1, offset + 1) := by
  induction lengths generalizing index with
  | nil => simp at h
  | cons first lengths ih =>
    cases index with
    | zero =>
      obtain rfl : first = length := by simpa using h
      simp [monthAndDay, daysOf, hoffset]
    | succ index =>
      have hpast : ¬first + daysOf (lengths.take index) + offset < first := by omega
      have hrest : first + daysOf (lengths.take index) + offset - first =
          daysOf (lengths.take index) + offset := by omega
      rw [List.take_succ_cons, daysOf_cons, monthAndDay, if_neg hpast, hrest,
        ih (by simpa using h)]

end Months

variable {c : Civil}

theorem valid_iff : c.Valid ↔ ∃ index offset length,
    (monthLengths c.year)[index]? = some length ∧ offset < length ∧
      c.month = index + 1 ∧ c.day = offset + 1 := by
  constructor
  · rintro ⟨hmonth, hday, length, hlength, hle⟩
    exact ⟨c.month - 1, c.day - 1, length, hlength, by omega, by omega, by omega⟩
  · rintro ⟨index, offset, length, hlength, hoffset, hmonth, hday⟩
    refine ⟨by omega, by omega, length, ?_, by omega⟩
    rw [hmonth]
    exact hlength

theorem Valid.month_le (h : c.Valid) : c.month ≤ 12 := by
  obtain ⟨index, offset, length, hlength, -, hmonth, -⟩ := valid_iff.mp h
  obtain ⟨hindex, -⟩ := List.getElem?_eq_some_iff.mp hlength
  have htwelve : (monthLengths c.year).length = 12 := rfl
  omega

theorem Valid.day_le (h : c.Valid) : c.day ≤ 31 := by
  obtain ⟨index, offset, length, hlength, hoffset, -, hday⟩ := valid_iff.mp h
  have hlongest : ∀ length ∈ monthLengths c.year, length ≤ 31 := by
    rw [monthLengths]
    split <;> decide
  have := hlongest length (List.mem_of_getElem? hlength)
  omega

theorem dayOfYear_lt (h : c.Valid) : c.dayOfYear < daysOf (monthLengths c.year) := by
  obtain ⟨index, offset, length, hlength, hoffset, hmonth, hday⟩ := valid_iff.mp h
  have hle := daysOf_take_add_le hlength
  simp only [dayOfYear, hmonth, hday, Nat.add_sub_cancel]
  omega

/-! ## Years -/

variable {year other number : Int}

theorem daysOf_monthLengths (year : Int) :
    daysOf (monthLengths year) = if isLeap year then 366 else 365 := by
  rw [monthLengths]
  split <;> rfl

theorem yearStart_succ (year : Int) :
    yearStart (year + 1) = yearStart year + daysOf (monthLengths year) := by
  rw [daysOf_monthLengths]
  by_cases h : isLeap year
  · have hleap : year % 4 = 0 ∧ (year % 100 ≠ 0 ∨ year % 400 = 0) := by simpa [isLeap] using h
    simp only [h, if_true, yearStart]
    omega
  · have hplain : ¬(year % 4 = 0 ∧ (year % 100 ≠ 0 ∨ year % 400 = 0)) := by simpa [isLeap] using h
    simp only [h, if_false, yearStart, Bool.false_eq_true]
    omega

/-- No year starts before the years up to it are over. -/
theorem yearStart_succ_le (h : year < other) : yearStart (year + 1) ≤ yearStart other := by
  simp only [yearStart]
  omega

/-- Years are 365.2425 days long, give or take two days in all. -/
theorem yearStart_near (year : Int) :
    146097 * (year - 1) - 800 ≤ 400 * (yearStart year + 719162) ∧
      400 * (yearStart year + 719162) ≤ 146097 * (year - 1) + 800 := by
  simp only [yearStart]
  omega

theorem yearStart_yearOf (number : Int) :
    yearStart (yearOf number) ≤ number ∧ number < yearStart (yearOf number + 1) := by
  -- The guess is off by one year at most.
  let guess := (number + 719162) * 400 / 146097 + 1
  have hlower : yearStart (guess - 1) ≤ number := by
    have := (yearStart_near (guess - 1)).2
    omega
  have hupper : number < yearStart (guess + 2) := by
    have := (yearStart_near (guess + 2)).1
    omega
  rw [yearOf]
  change yearStart (if number < yearStart guess then guess - 1
      else if yearStart (guess + 1) ≤ number then guess + 1 else guess) ≤ number ∧
    number < yearStart ((if number < yearStart guess then guess - 1
      else if yearStart (guess + 1) ≤ number then guess + 1 else guess) + 1)
  split
  · next h => exact ⟨hlower, by rwa [Int.sub_add_cancel]⟩
  · split
    · next h => exact ⟨h, by rwa [Int.add_assoc]⟩
    · next h h' => exact ⟨Int.not_lt.mp h, Int.not_le.mp h'⟩

/-- The year of a day is the one that has started by then and that the next one has not followed yet. -/
theorem yearOf_eq_iff :
    yearOf number = year ↔ yearStart year ≤ number ∧ number < yearStart (year + 1) := by
  constructor
  · rintro rfl
    exact yearStart_yearOf number
  · rintro ⟨hstart, hnext⟩
    obtain ⟨hfound, hfound'⟩ := yearStart_yearOf number
    rcases Int.lt_trichotomy (yearOf number) year with hlt | heq | hgt
    · have := yearStart_succ_le hlt
      omega
    · exact heq
    · have := yearStart_succ_le hgt
      omega

end Civil

open Civil

namespace Date

variable {c : Civil} {d : Date}

/-! ## Days by year, month and day of the month -/

theorem number_ofCivil (c : Civil) : (ofCivil c).number = yearStart c.year + c.dayOfYear :=
  rfl

theorem year_civil (d : Date) : d.civil.year = yearOf d.number :=
  rfl

theorem civil_ofCivil (h : c.Valid) : (ofCivil c).civil = c := by
  obtain ⟨index, offset, length, hlength, hoffset, hmonth, hday⟩ := valid_iff.mp h
  have hlt := dayOfYear_lt h
  have hyear : yearOf (ofCivil c).number = c.year := by
    rw [yearOf_eq_iff, yearStart_succ, number_ofCivil]
    omega
  have hday' : ((ofCivil c).number - yearStart c.year).toNat =
      daysOf ((monthLengths c.year).take index) + offset := by
    simp only [ofCivil, dayOfYear, hmonth, hday, Nat.add_sub_cancel]
    omega
  simp only [civil, hyear, hday', monthAndDay_daysOf_take hlength hoffset, ← hmonth, ← hday]

/-- What a day is called by is a month that its year has and a day that the month has, and it names
the day. -/
theorem civil_spec (d : Date) : d.civil.Valid ∧ ofCivil d.civil = d := by
  obtain ⟨hstart, hnext⟩ := yearStart_yearOf d.number
  rw [yearStart_succ] at hnext
  have hwithin : (d.number - yearStart (yearOf d.number)).toNat <
      daysOf (monthLengths (yearOf d.number)) := by
    omega
  obtain ⟨index, offset, length, hlength, hoffset, hdays⟩ := exists_month hwithin
  have hcivil : d.civil = ⟨yearOf d.number, index + 1, offset + 1⟩ := by
    simp only [civil, hdays, monthAndDay_daysOf_take hlength hoffset]
  rw [hcivil]
  refine ⟨valid_iff.mpr ⟨index, offset, length, hlength, hoffset, rfl, rfl⟩, ?_⟩
  obtain ⟨number⟩ := d
  simp only [ofCivil, dayOfYear, Nat.add_sub_cancel, ← hdays, Date.mk.injEq] at hstart ⊢
  omega

theorem civil_eq_iff : d.civil = c ↔ c.Valid ∧ d = ofCivil c := by
  constructor
  · rintro rfl
    exact ⟨d.civil_spec.1, d.civil_spec.2.symm⟩
  · rintro ⟨h, rfl⟩
    exact civil_ofCivil h

/-! ## The ends of the calendar -/

/-- The calendar has the day. -/
def InCalendar (d : Date) : Prop :=
  firstNumber ≤ d.number ∧ d.number ≤ lastNumber

instance (d : Date) : Decidable d.InCalendar :=
  inferInstanceAs (Decidable (_ ∧ _))

/-- A day belongs to the years from the one on that has started by then. -/
theorem le_year_iff {year : Int} : year ≤ d.civil.year ↔ yearStart year ≤ d.number := by
  obtain ⟨hstart, hnext⟩ := yearStart_yearOf d.number
  rw [← year_civil] at hstart hnext
  constructor
  · intro hle
    have hfirst := yearStart_succ_le (Int.sub_one_lt_of_le hle)
    rw [Int.sub_add_cancel] at hfirst
    omega
  · intro hle
    refine Int.not_lt.mp fun hlt => ?_
    have := yearStart_succ_le hlt
    omega

theorem inCalendar_iff : d.InCalendar ↔ -262143 ≤ d.civil.year ∧ d.civil.year ≤ 262142 := by
  have hfirst : yearStart (-262143) = firstNumber := by decide
  have hlast : yearStart 262143 = lastNumber + 1 := by decide
  have hlower : -262143 ≤ d.civil.year ↔ yearStart (-262143) ≤ d.number := le_year_iff
  have hupper : 262143 ≤ d.civil.year ↔ yearStart 262143 ≤ d.number := le_year_iff
  rw [InCalendar]
  omega

/-- The calendar has a day for a year, a month and a day of the month if there is such a day, from
-262143 to 262142. -/
theorem ofCivil?_eq_some_iff :
    ofCivil? c = some d ↔ d.civil = c ∧ -262143 ≤ c.year ∧ c.year ≤ 262142 := by
  have hrange : c.Valid → ((ofCivil c).InCalendar ↔ -262143 ≤ c.year ∧ c.year ≤ 262142) := by
    intro h
    rw [inCalendar_iff, civil_ofCivil h]
  rw [ofCivil?, civil_eq_iff]
  constructor
  · intro h
    split at h
    · next hin =>
      obtain rfl := Option.some.inj h
      exact ⟨⟨hin.1, rfl⟩, (hrange hin.1).mp hin.2⟩
    · contradiction
  · rintro ⟨⟨hvalid, rfl⟩, hyear⟩
    exact if_pos ⟨hvalid, (hrange hvalid).mpr hyear⟩

end Date

end Daybook
