import Daybook.Calendar.Timestamp
import Daybook.Calendar.Zone
import Daybook.Proofs.Calendar.Civil
import Daybook.Proofs.Calendar.LocalTimes
import Daybook.Proofs.Text.Digits
import Mathlib.Tactic.SplitIfs

/-! # The spellings of a timestamp

Which texts spell a local date and time with its offset. A timestamp is read from these texts and from no
others, and it is the instant at which a clock with that offset shows that date and time. -/

namespace Daybook

open Text

theorem Instant.ext {i j : Instant} (hsecond : i.second = j.second) (hnano : i.nano = j.nano) :
    i = j := by
  cases i
  cases j
  simp_all

/-- A local date and time at an offset, as it can be written. Second 60 is a leap second. -/
structure Stamp where
  date : Date
  hour : Nat
  minute : Nat
  second : Nat
  nano : Nat
  offset : Offset
  year_nonneg : 0 ≤ date.civil.year
  year_le : date.civil.year ≤ 9999
  hour_le : hour ≤ 23
  minute_le : minute ≤ 59
  second_le : second ≤ 60
  nano_lt : nano < 1000000000

namespace Stamp

variable {s : Stamp}

/-- The seconds since the start of the local day. A leap second belongs to the second before it. -/
def timeOfDay (s : Stamp) : Nat :=
  s.hour * 3600 + s.minute * 60 + min s.second 59

theorem timeOfDay_lt (s : Stamp) : (s.timeOfDay : Int) < daySeconds := by
  have hhour := s.hour_le
  have hminute := s.minute_le
  simp only [timeOfDay, daySeconds]
  omega

/-- The years that are written with four digits are far from both ends of the calendar. -/
theorem inCalendar (s : Stamp) :
    InCalendar (s.date.number * daySeconds + s.timeOfDay - s.offset.seconds) := by
  have hfirst : Civil.yearStart 0 = -719528 := by decide
  have hlast : Civil.yearStart 10000 = 2932897 := by decide
  have hlower := Date.le_year_iff.mp s.year_nonneg
  have hupper : 10000 ≤ s.date.civil.year ↔ Civil.yearStart 10000 ≤ s.date.number :=
    Date.le_year_iff
  have hyear := s.year_le
  have htime := s.timeOfDay_lt
  have hgt := s.offset.gt
  have hlt := s.offset.lt
  simp only [InCalendar, Date.firstNumber, Date.lastNumber, daySeconds] at htime ⊢
  omega

/-- The instant that is written. -/
def instant (s : Stamp) : Instant where
  second := s.date.number * daySeconds + s.timeOfDay - s.offset.seconds
  nano := if s.second = 60 then s.nano + 1000000000 else s.nano
  inCalendar := s.inCalendar
  nano_lt := by
    have := s.nano_lt
    split <;> omega

/-- A clock with the offset of the timestamp shows its date and its time of day at the instant. -/
structure ShownAt (s : Stamp) (i : Instant) : Prop where
  date : (Zone.fixed s.offset).dateAt i = s.date
  time : (Zone.fixed s.offset).toLocal i.second % daySeconds = s.timeOfDay
  nano : i.nano = if s.second = 60 then s.nano + 1000000000 else s.nano

theorem shownAt_instant (s : Stamp) : s.ShownAt s.instant := by
  have hlt := s.timeOfDay_lt
  have hlocal : (Zone.fixed s.offset).toLocal s.instant.second =
      s.date.number * daySeconds + s.timeOfDay := by
    simp only [Zone.toLocal_fixed, instant]
    omega
  simp only [daySeconds] at hlt hlocal
  refine ⟨?_, ?_, rfl⟩
  · have hday : (s.date.number * 86400 + s.timeOfDay) / 86400 = s.date.number := by omega
    rw [Zone.dateAt, hlocal, daySeconds, hday]
  · rw [hlocal, daySeconds]
    omega

theorem ShownAt.eq_instant {i : Instant} (h : s.ShownAt i) : i = s.instant := by
  have hdate := congrArg Date.number h.date
  have htime := h.time
  refine Instant.ext ?_ h.nano
  simp only [Zone.dateAt, Zone.toLocal_fixed, daySeconds] at hdate htime
  simp only [instant, daySeconds]
  omega

end Stamp

namespace Timestamp

variable {text rest : List Char} {n nano : Nat} {seconds : Int} {i : Instant} {s : Stamp}

/-! ## Grammar -/

/-- The text spells a fraction of a second, rounded down to nanoseconds. It may be left out. -/
inductive SpellsFraction : List Char → Nat → Prop
  | none : SpellsFraction [] 0
  | point {digits : List Char} {n : Nat} (hdigits : Digits digits n) :
      SpellsFraction ('.' :: digits) (n * 10 ^ 9 / 10 ^ digits.length)

/-- The text spells hours and minutes of less than a day, in seconds. -/
inductive SpellsHoursMinutes : List Char → Nat → Prop
  | mk {hours minutes : List Char} {h m : Nat} (hhours : FixedDigits 2 hours h)
      (hminutes : FixedDigits 2 minutes m) (hhours_le : h ≤ 23) (hminutes_le : m ≤ 59) :
      SpellsHoursMinutes (hours ++ ':' :: minutes) (h * 3600 + m * 60)

/-- The text spells an offset in seconds east of UTC. -/
inductive SpellsOffset : List Char → Int → Prop
  | utc {mark : Char} (hmark : mark = 'Z' ∨ mark = 'z') : SpellsOffset [mark] 0
  | east {text : List Char} {seconds : Nat} (h : SpellsHoursMinutes text seconds) :
      SpellsOffset ('+' :: text) seconds
  | west {sign : Char} {text : List Char} {seconds : Nat} (hsign : sign = '-' ∨ sign = '\u2212')
      (h : SpellsHoursMinutes text seconds) : SpellsOffset (sign :: text) (-(seconds : Int))

/-- The text spells a local date and time with its offset. -/
inductive Spells : List Char → Stamp → Prop
  | mk {year month day hour minute second fraction offset : List Char} {mark : Char} {s : Stamp}
      (hyear : FixedDigits 4 year s.date.civil.year.toNat)
      (hmonth : FixedDigits 2 month s.date.civil.month) (hday : FixedDigits 2 day s.date.civil.day)
      (hmark : mark = 'T' ∨ mark = 't' ∨ mark = ' ') (hhour : FixedDigits 2 hour s.hour)
      (hminute : FixedDigits 2 minute s.minute) (hsecond : FixedDigits 2 second s.second)
      (hfraction : SpellsFraction fraction s.nano) (hoffset : SpellsOffset offset s.offset.seconds) :
      Spells (year ++ '-' :: (month ++ '-' :: (day ++ mark ::
        (hour ++ ':' :: (minute ++ ':' :: (second ++ (fraction ++ offset))))))) s

theorem Spells.colon_mem (h : Spells text s) : ':' ∈ text := by
  obtain ⟨hyear, hmonth, hday, hmark, hhour, hminute, hsecond, hfraction, hoffset⟩ := h
  simp

/-! ## Reading -/

theorem skipSeparator?_eq_some_iff : skipSeparator? text = some rest ↔
    ∃ mark, (mark = 'T' ∨ mark = 't' ∨ mark = ' ') ∧ text = mark :: rest := by
  rw [skipSeparator?.eq_def]
  split <;> simp_all

/-- Nine digits of a fraction, with zeros where there are fewer, are its nanoseconds. -/
theorem valueOf_nine {digits : List Char} (h : Digits digits n) :
    valueOf (digits.take 9 ++ List.replicate (9 - (digits.take 9).length) '0') =
      n * 10 ^ 9 / 10 ^ digits.length := by
  rw [valueOf_append, valueOf_zeros, Nat.add_zero, List.length_replicate, List.length_take,
    valueOf_take h.isDigit, h.value]
  rcases Nat.le_total digits.length 9 with hle | hge
  · have hpow : 10 ^ 9 = 10 ^ (9 - digits.length) * 10 ^ digits.length := by
      rw [← Nat.pow_add, Nat.sub_add_cancel hle]
    rw [Nat.min_eq_right hle, Nat.sub_eq_zero_of_le hle, Nat.pow_zero, Nat.div_one, hpow,
      ← Nat.mul_assoc, Nat.mul_div_cancel _ (Nat.pow_pos (by decide))]
  · have hpow : 10 ^ digits.length = 10 ^ (digits.length - 9) * 10 ^ 9 := by
      rw [← Nat.pow_add, Nat.sub_add_cancel hge]
    rw [Nat.min_eq_left hge, Nat.sub_self, Nat.pow_zero, Nat.mul_one, hpow,
      Nat.mul_div_mul_right _ _ (Nat.pow_pos (by decide))]

theorem SpellsFraction.lt (h : SpellsFraction text nano) : nano < 1000000000 := by
  cases h with
  | none => decide
  | point hdigits =>
    rw [Nat.div_lt_iff_lt_mul (Nat.pow_pos (by decide)), Nat.mul_comm]
    exact Nat.mul_lt_mul_of_pos_left hdigits.lt (by decide)

theorem takeFraction?_append {fraction : List Char} (h : SpellsFraction fraction nano)
    (hrest : ∀ c ∈ rest.head?, ¬c.isDigit ∧ c ≠ '.') :
    takeFraction? (fraction ++ rest) = some (nano, rest) := by
  cases h with
  | none =>
    rw [List.nil_append, takeFraction?.eq_def]
    split
    · exact absurd rfl (hrest '.' rfl).2
    · rfl
  | point hdigits =>
    have hstop : ∀ c ∈ rest.head?, ¬c.isDigit := fun c hc => (hrest c hc).1
    simp only [List.cons_append, takeFraction?, takeWhile_append_of_head hdigits.isDigit hstop,
      dropWhile_append_of_head hdigits.isDigit hstop, if_neg hdigits.ne_nil, valueOf_nine hdigits]

theorem exists_of_takeFraction? (h : takeFraction? text = some (nano, rest)) :
    ∃ fraction, SpellsFraction fraction nano ∧ text = fraction ++ rest := by
  rw [takeFraction?.eq_def] at h
  split at h
  · next tail =>
    simp only at h
    split_ifs at h with hne
    obtain ⟨rfl, rfl⟩ := Prod.mk.inj (Option.some.inj h)
    have hdigits : Digits (tail.takeWhile Char.isDigit) (valueOf (tail.takeWhile Char.isDigit)) :=
      ⟨hne, fun c hc => List.mem_takeWhile_imp hc, rfl⟩
    rw [valueOf_nine hdigits]
    exact ⟨_, .point hdigits, by rw [List.cons_append, List.takeWhile_append_dropWhile]⟩
  · obtain ⟨rfl, rfl⟩ := Prod.mk.inj (Option.some.inj h)
    exact ⟨[], .none, rfl⟩

theorem takeHoursMinutes?_eq_some_iff : takeHoursMinutes? text = some (seconds, rest) ↔
    ∃ front n, SpellsHoursMinutes front n ∧ seconds = n ∧ text = front ++ rest := by
  simp only [takeHoursMinutes?, Option.bind_eq_bind, Option.bind_eq_some_iff, Prod.exists,
    expect?_eq_some_iff, takeDigits?_eq_some_iff (by decide : 0 < 2)]
  constructor
  · rintro ⟨h, _, ⟨hours, hhours, rfl⟩, _, rfl, m, rest', ⟨minutes, hminutes, rfl⟩, hread⟩
    split_ifs at hread with hle
    obtain ⟨rfl, rfl⟩ := Prod.mk.inj (Option.some.inj hread)
    exact ⟨_, _, .mk hhours hminutes hle.1 hle.2, rfl, by simp⟩
  · rintro ⟨front, n, ⟨hhours, hminutes, hh, hm⟩, rfl, rfl⟩
    rw [List.append_assoc, List.cons_append]
    refine ⟨_, _, ⟨_, hhours, rfl⟩, _, rfl, _, _, ⟨_, hminutes, rfl⟩, ?_⟩
    rw [if_pos ⟨hh, hm⟩]

/-- West of UTC the same spellings are read, with the sign turned round. -/
theorem map_takeHoursMinutes?_eq_some_iff :
    (takeHoursMinutes? text).map (fun (seconds, rest) => (-seconds, rest)) = some (seconds, rest) ↔
      ∃ front n, SpellsHoursMinutes front n ∧ seconds = -(n : Int) ∧ text = front ++ rest := by
  constructor
  · intro h
    obtain ⟨⟨east, _⟩, hread, heq⟩ := Option.map_eq_some_iff.mp h
    obtain ⟨rfl, rfl⟩ := Prod.mk.inj heq
    obtain ⟨front, n, hfront, rfl, rfl⟩ := takeHoursMinutes?_eq_some_iff.mp hread
    exact ⟨front, n, hfront, rfl, rfl⟩
  · rintro ⟨front, n, hfront, rfl, rfl⟩
    rw [takeHoursMinutes?_eq_some_iff.mpr ⟨front, n, hfront, rfl, rfl⟩]
    rfl

theorem takeOffset?_eq_some_iff : takeOffset? text = some (seconds, rest) ↔
    ∃ front, SpellsOffset front seconds ∧ text = front ++ rest := by
  constructor
  · intro h
    rw [takeOffset?.eq_def] at h
    split at h
    · obtain ⟨rfl, rfl⟩ := Prod.mk.inj (Option.some.inj h)
      exact ⟨_, .utc (.inl rfl), rfl⟩
    · obtain ⟨rfl, rfl⟩ := Prod.mk.inj (Option.some.inj h)
      exact ⟨_, .utc (.inr rfl), rfl⟩
    · obtain ⟨front, n, hfront, rfl, rfl⟩ := takeHoursMinutes?_eq_some_iff.mp h
      exact ⟨_, .east hfront, rfl⟩
    · obtain ⟨front, n, hfront, rfl, rfl⟩ := map_takeHoursMinutes?_eq_some_iff.mp h
      exact ⟨_, .west (.inl rfl) hfront, rfl⟩
    · obtain ⟨front, n, hfront, rfl, rfl⟩ := map_takeHoursMinutes?_eq_some_iff.mp h
      exact ⟨_, .west (.inr rfl) hfront, rfl⟩
    · contradiction
  · rintro ⟨front, h, rfl⟩
    cases h with
    | utc hmark => rcases hmark with rfl | rfl <;> rfl
    | east h => exact takeHoursMinutes?_eq_some_iff.mpr ⟨_, _, h, rfl, rfl⟩
    | west hsign h =>
      rcases hsign with rfl | rfl <;>
        exact map_takeHoursMinutes?_eq_some_iff.mpr ⟨_, _, h, rfl, rfl⟩

theorem SpellsOffset.bounds (h : SpellsOffset text seconds) : -86400 < seconds ∧ seconds < 86400 := by
  cases h with
  | utc => decide
  | east h =>
    obtain ⟨-, -, hh, hm⟩ := h
    omega
  | west _ h =>
    obtain ⟨-, -, hh, hm⟩ := h
    omega

/-- An offset does not start as a fraction does or goes on. -/
theorem SpellsOffset.head (h : SpellsOffset text seconds) :
    ∀ c ∈ text.head?, ¬c.isDigit ∧ c ≠ '.' := by
  cases h with
  | utc hmark => rcases hmark with rfl | rfl <;> exact forall_head?_cons (by decide) _
  | east => exact forall_head?_cons (by decide) _
  | west hsign => rcases hsign with rfl | rfl <;> exact forall_head?_cons (by decide) _

theorem instant?_eq_some_iff {date : Date} {hour minute second : Nat} {offset : Int} :
    instant? date hour minute second nano offset = some i ↔
      hour ≤ 23 ∧ minute ≤ 59 ∧ second ≤ 60 ∧
        i.second = date.number * daySeconds +
          (hour * 3600 + minute * 60 + min second 59 : Nat) - offset ∧
        i.nano = if second = 60 then nano + 1000000000 else nano := by
  rw [instant?]
  by_cases h : hour ≤ 23 ∧ minute ≤ 59 ∧ second ≤ 60
  · rw [if_pos h, Instant.of?_eq_some_iff]
    simp only [h, true_and]
  · rw [if_neg h]
    constructor
    · intro hnone
      contradiction
    · rintro ⟨hhour, hminute, hsecond, -⟩
      exact absurd ⟨hhour, hminute, hsecond⟩ h

/-! ### Date and time -/

/-- The date in front of a timestamp. -/
def takeDate? (text : List Char) : Option (Date × List Char) := do
  let (year, text) ← takeDigits? 4 text
  let text ← expect? '-' text
  let (month, text) ← takeDigits? 2 text
  let text ← expect? '-' text
  let (day, text) ← takeDigits? 2 text
  let date ← Date.ofCivil? ⟨year, month, day⟩
  return (date, text)

/-- The hour, the minute and the second after the date. -/
def takeTime? (text : List Char) : Option ((Nat × Nat × Nat) × List Char) := do
  let (hour, text) ← takeDigits? 2 text
  let text ← expect? ':' text
  let (minute, text) ← takeDigits? 2 text
  let text ← expect? ':' text
  let (second, text) ← takeDigits? 2 text
  return ((hour, minute, second), text)

theorem takeDate?_eq_some_iff {d : Date} : takeDate? text = some (d, rest) ↔
    ∃ year month day, FixedDigits 4 year d.civil.year.toNat ∧ 0 ≤ d.civil.year ∧
      FixedDigits 2 month d.civil.month ∧ FixedDigits 2 day d.civil.day ∧
      text = year ++ '-' :: (month ++ '-' :: (day ++ rest)) := by
  constructor
  · intro h
    simp only [takeDate?, Option.bind_eq_bind, Option.bind_eq_some_iff, Prod.exists,
      expect?_eq_some_iff, takeDigits?_eq_some_iff (by decide : 0 < 2),
      takeDigits?_eq_some_iff (by decide : 0 < 4)] at h
    obtain ⟨y, _, ⟨year, hyear, rfl⟩, _, rfl, m, _, ⟨month, hmonth, rfl⟩, _, rfl, k, _,
      ⟨day, hday, rfl⟩, date, hdate, h⟩ := h
    obtain ⟨rfl, rfl⟩ := Prod.mk.inj (Option.some.inj h)
    obtain ⟨hcivil, -⟩ := Date.ofCivil?_eq_some_iff.mp hdate
    rw [hcivil]
    exact ⟨year, month, day, hyear, Int.natCast_nonneg y, hmonth, hday, rfl⟩
  · rintro ⟨year, month, day, hyear, hfirst, hmonth, hday, rfl⟩
    have hlt : d.civil.year.toNat < 10 ^ 4 := hyear.length_eq ▸ hyear.lt
    have hlast : d.civil.year ≤ 262142 := by omega
    have hdate : Date.ofCivil? ⟨d.civil.year.toNat, d.civil.month, d.civil.day⟩ = some d := by
      rw [Date.ofCivil?_eq_some_iff, Int.toNat_of_nonneg hfirst]
      exact ⟨rfl, Int.le_trans (by decide) hfirst, hlast⟩
    simp only [takeDate?, hyear.takeDigits?, hmonth.takeDigits?, hday.takeDigits?, expect?_cons,
      hdate, Option.bind_eq_bind, Option.bind_some]
    rfl

theorem takeTime?_eq_some_iff {h m s : Nat} : takeTime? text = some ((h, m, s), rest) ↔
    ∃ hour minute second, FixedDigits 2 hour h ∧ FixedDigits 2 minute m ∧ FixedDigits 2 second s ∧
      text = hour ++ ':' :: (minute ++ ':' :: (second ++ rest)) := by
  constructor
  · intro htime
    simp only [takeTime?, Option.bind_eq_bind, Option.bind_eq_some_iff, Prod.exists,
      expect?_eq_some_iff, takeDigits?_eq_some_iff (by decide : 0 < 2)] at htime
    obtain ⟨_, _, ⟨hour, hhour, rfl⟩, _, rfl, _, _, ⟨minute, hminute, rfl⟩, _, rfl, _, _,
      ⟨second, hsecond, rfl⟩, htime⟩ := htime
    obtain ⟨⟨⟩, rfl⟩ := Prod.mk.inj (Option.some.inj htime)
    exact ⟨hour, minute, second, hhour, hminute, hsecond, rfl⟩
  · rintro ⟨hour, minute, second, hhour, hminute, hsecond, rfl⟩
    simp only [takeTime?, hhour.takeDigits?, hminute.takeDigits?, hsecond.takeDigits?, expect?_cons,
      Option.bind_eq_bind, Option.bind_some]
    rfl

/-- A timestamp is a date, a time, a fraction and an offset. -/
theorem read?_eq (text : List Char) : read? text = (do
    let (date, text) ← takeDate? text
    let text ← skipSeparator? text
    let ((hour, minute, second), text) ← takeTime? text
    let (nano, text) ← takeFraction? text
    let (offset, text) ← takeOffset? text
    if text = [] then instant? date hour minute second nano offset else none) := by
  simp only [read?, takeDate?, takeTime?, bind_assoc, pure_bind]

theorem read?_eq_some_iff : read? text = some i ↔ ∃ s, Spells text s ∧ s.instant = i := by
  rw [read?_eq]
  constructor
  · intro h
    simp only [Option.bind_eq_bind, Option.bind_eq_some_iff, Prod.exists, takeDate?_eq_some_iff,
      takeTime?_eq_some_iff, skipSeparator?_eq_some_iff, takeOffset?_eq_some_iff] at h
    obtain ⟨date, _, ⟨year, month, day, hyear, hfirst, hmonth, hday, rfl⟩, _, ⟨mark, hmark, rfl⟩,
      hour, minute, second, _, ⟨hh, mm, ss, hhour, hminute, hsecond, rfl⟩, nano, _, hfraction,
      seconds, rest, ⟨offset, hoffset, rfl⟩, h⟩ := h
    split_ifs at h with hend
    obtain ⟨fraction, hspelled, rfl⟩ := exists_of_takeFraction? hfraction
    obtain ⟨hhour_le, hminute_le, hsecond_le, hi, hnano⟩ := instant?_eq_some_iff.mp h
    obtain ⟨hgt, hlt⟩ := hoffset.bounds
    have hyear_lt : date.civil.year.toNat < 10 ^ 4 := hyear.length_eq ▸ hyear.lt
    let s : Stamp := ⟨date, hour, minute, second, nano, ⟨seconds, hgt, hlt⟩, hfirst, by omega,
      hhour_le, hminute_le, hsecond_le, hspelled.lt⟩
    have hspells := Spells.mk (s := s) hyear hmonth hday hmark hhour hminute hsecond hspelled hoffset
    rw [hend, List.append_nil]
    exact ⟨s, hspells, Instant.ext hi.symm hnano.symm⟩
  · rintro ⟨s, h, rfl⟩
    have hinstant := (instant?_eq_some_iff (i := s.instant)).mpr
      ⟨s.hour_le, s.minute_le, s.second_le, rfl, rfl⟩
    obtain ⟨hyear, hmonth, hday, hmark, hhour, hminute, hsecond, hfraction, hoffset⟩ := h
    have hdate := fun rest => takeDate?_eq_some_iff.mpr
      ⟨_, _, _, hyear, s.year_nonneg, hmonth, hday, (rfl : _ = _ ++ '-' :: (_ ++ '-' :: (_ ++ rest)))⟩
    have hseparator := fun rest => skipSeparator?_eq_some_iff.mpr ⟨_, hmark, (rfl : _ = _ :: rest)⟩
    have htime := fun rest => takeTime?_eq_some_iff.mpr
      ⟨_, _, _, hhour, hminute, hsecond, (rfl : _ = _ ++ ':' :: (_ ++ ':' :: (_ ++ rest)))⟩
    have hread := takeOffset?_eq_some_iff.mpr ⟨_, hoffset, (List.append_nil _).symm⟩
    simp only [hdate, hseparator, htime, takeFraction?_append hfraction hoffset.head, hread,
      Option.bind_eq_bind, Option.bind_some, if_true]
    exact hinstant

theorem read?_eq_none_iff : read? text = none ↔ ∀ s, ¬Spells text s := by
  simp only [Option.eq_none_iff_forall_ne_some, ne_eq, read?_eq_some_iff, not_exists, not_and]
  exact ⟨fun h s hs => h s.instant s hs rfl, fun h i s hs _ => h s hs⟩

end Timestamp

end Daybook
