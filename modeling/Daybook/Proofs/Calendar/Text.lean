import Daybook.Calendar.Text
import Daybook.Proofs.Calendar.Civil
import Daybook.Proofs.Text.Blank
import Daybook.Proofs.Text.Digits
import Mathlib.Tactic.SplitIfs

/-! # The spellings of a date

Which texts spell a date by its year, its month and its day. Dates are read from these texts and from no
others, and the text of a date is one of them. -/

namespace Daybook.Date

open Text

variable {text rest : List Char} {year : Int} {n : Nat} {d : Date}

/-! ## Grammar -/

/-- The text spells a year. It has any number of digits after a sign, and four at most without one. -/
inductive SpellsYear : List Char → Int → Prop
  | plus {blank digits : List Char} {n : Nat} (hblank : IsBlank blank) (hdigits : Digits digits n) :
      SpellsYear (blank ++ '+' :: digits) n
  | minus {blank digits : List Char} {n : Nat} (hblank : IsBlank blank) (hdigits : Digits digits n) :
      SpellsYear (blank ++ '-' :: digits) (-(n : Int))
  | unsigned {blank digits : List Char} {n : Nat} (hblank : IsBlank blank)
      (hdigits : Digits digits n) (hlength : digits.length ≤ 4) : SpellsYear (blank ++ digits) n

/-- The text spells a month or a day of the month, which has one digit or two. -/
inductive SpellsPart : List Char → Nat → Prop
  | mk {blank digits : List Char} {n : Nat} (hblank : IsBlank blank) (hdigits : Digits digits n)
      (hlength : digits.length ≤ 2) : SpellsPart (blank ++ digits) n

/-- The text spells a date of the calendar by its year, its month and its day of the month. -/
inductive Spells : List Char → Date → Prop
  | mk {year month day : List Char} {d : Date} (hyear : SpellsYear year d.civil.year)
      (hmonth : SpellsPart month d.civil.month) (hday : SpellsPart day d.civil.day)
      (hin : d.InCalendar) : Spells (year ++ '-' :: (month ++ '-' :: day)) d

/-! ## Reading -/

theorem takeYear?_append {front : List Char} (h : SpellsYear front year)
    (hrest : ∀ c ∈ rest.head?, ¬c.isDigit) : takeYear? (front ++ rest) = some (year, rest) := by
  cases h with
  | plus hblank hdigits =>
    have hsign : ¬isBlank '+' := by decide
    rw [takeYear?, List.append_assoc, trimStart_append hblank (by simpa using hsign)]
    simp [hdigits.takeAllDigits? hrest]
  | minus hblank hdigits =>
    have hsign : ¬isBlank '-' := by decide
    rw [takeYear?, List.append_assoc, trimStart_append hblank (by simpa using hsign)]
    simp [hdigits.takeAllDigits? hrest]
  | @unsigned blank digits n hblank hdigits hlength =>
    obtain ⟨c, tail, rfl⟩ := List.exists_cons_of_ne_nil hdigits.ne_nil
    have hc : c.isDigit := hdigits.isDigit c List.mem_cons_self
    have hread := takeDigitsUpTo?_append hdigits hlength hrest
    rw [takeYear?, List.append_assoc,
      trimStart_append hblank (by simpa using not_isBlank_of_isDigit hc)]
    -- A digit is neither of the signs.
    split
    · next heq =>
      obtain ⟨rfl, -⟩ := List.cons.inj heq
      contradiction
    · next heq =>
      obtain ⟨rfl, -⟩ := List.cons.inj heq
      contradiction
    · rw [hread]
      rfl

theorem exists_of_takeYear? (h : takeYear? text = some (year, rest)) :
    ∃ front, SpellsYear front year ∧ text = front ++ rest := by
  obtain ⟨blank, hblank, htext⟩ := exists_blank_trimStart text
  rw [takeYear?] at h
  split at h <;> simp only [Option.map_eq_some_iff, Prod.exists, Prod.mk.injEq] at h
  · next tail heq =>
    obtain ⟨n, _, hread, rfl, rfl⟩ := h
    obtain ⟨digits, hdigits, rfl⟩ := exists_of_takeAllDigits? hread
    exact ⟨_, .minus hblank hdigits, by rw [htext, heq, List.append_assoc, List.cons_append]⟩
  · next tail heq =>
    obtain ⟨n, _, hread, rfl, rfl⟩ := h
    obtain ⟨digits, hdigits, rfl⟩ := exists_of_takeAllDigits? hread
    exact ⟨_, .plus hblank hdigits, by rw [htext, heq, List.append_assoc, List.cons_append]⟩
  · obtain ⟨n, _, hread, rfl, rfl⟩ := h
    obtain ⟨digits, hdigits, hlength, heq⟩ := exists_of_takeDigitsUpTo? hread
    exact ⟨_, .unsigned hblank hdigits hlength, by rw [htext, heq, List.append_assoc]⟩

theorem takePart?_append {front : List Char} (h : SpellsPart front n)
    (hrest : ∀ c ∈ rest.head?, ¬c.isDigit) : takePart? (front ++ rest) = some (n, rest) := by
  obtain ⟨hblank, hdigits, hlength⟩ := h
  obtain ⟨c, tail, rfl⟩ := List.exists_cons_of_ne_nil hdigits.ne_nil
  have hc : c.isDigit := hdigits.isDigit c List.mem_cons_self
  rw [takePart?, List.append_assoc,
    trimStart_append hblank (by simpa using not_isBlank_of_isDigit hc),
    takeDigitsUpTo?_append hdigits hlength hrest]

theorem exists_of_takePart? (h : takePart? text = some (n, rest)) :
    ∃ front, SpellsPart front n ∧ text = front ++ rest := by
  obtain ⟨blank, hblank, htext⟩ := exists_blank_trimStart text
  obtain ⟨digits, hdigits, hlength, heq⟩ := exists_of_takeDigitsUpTo? h
  exact ⟨_, .mk hblank hdigits hlength, by rw [htext, heq, List.append_assoc]⟩

theorem read?_eq_some_iff : read? text = some d ↔ Spells text d := by
  constructor
  · intro h
    simp only [read?, Option.bind_eq_bind, Option.bind_eq_some_iff, Prod.exists,
      expect?_eq_some_iff] at h
    obtain ⟨year, _, hyear, _, rfl, month, _, hmonth, _, rfl, day, rest, hday, h⟩ := h
    split_ifs at h with hend
    obtain ⟨y, hy, rfl⟩ := exists_of_takeYear? hyear
    obtain ⟨m, hm, rfl⟩ := exists_of_takePart? hmonth
    obtain ⟨k, hk, rfl⟩ := exists_of_takePart? hday
    obtain ⟨hcivil, hrange⟩ := ofCivil?_eq_some_iff.mp h
    rw [hend, List.append_nil]
    exact .mk (hcivil ▸ hy) (hcivil ▸ hm) (hcivil ▸ hk) (inCalendar_iff.mpr (hcivil ▸ hrange))
  · intro h
    obtain ⟨hyear, hmonth, hday, hin⟩ := h
    have hhyphen : ∀ rest : List Char, ∀ c ∈ ('-' :: rest).head?, ¬c.isDigit :=
      forall_head?_cons (by decide)
    have hnil : ∀ c ∈ ([] : List Char).head?, ¬c.isDigit := by simp
    have hday' := takePart?_append hday hnil
    rw [List.append_nil] at hday'
    simp only [read?, takeYear?_append hyear (hhyphen _), takePart?_append hmonth (hhyphen _), hday',
      expect?_cons, Option.bind_eq_bind, Option.bind_some, if_true]
    exact ofCivil?_eq_some_iff.mpr ⟨rfl, inCalendar_iff.mp hin⟩

theorem read?_eq_none_iff : read? text = none ↔ ∀ d, ¬Spells text d := by
  simp only [← read?_eq_some_iff, Option.eq_none_iff_forall_ne_some, ne_eq]

/-! ## Writing -/

theorem spellsYear_yearText (year : Int) : SpellsYear (yearText year) year := by
  have hblank : IsBlank [] := List.forall_mem_nil _
  rw [yearText]
  split_ifs with hplain hneg
  · have hdigits : FixedDigits 4 (zeroPadded 4 year.toNat) year.toNat :=
      fixedDigits_zeroPadded (by decide) (by omega)
    have h := SpellsYear.unsigned hblank hdigits.toDigits hdigits.length_eq.le
    rwa [Int.toNat_of_nonneg hplain.1] at h
  · have h := SpellsYear.minus hblank (digits_zeroPadded 4 year.natAbs)
    rwa [Int.ofNat_natAbs_of_nonpos (Int.le_of_lt hneg), Int.neg_neg] at h
  · have h := SpellsYear.plus hblank (digits_zeroPadded 4 year.natAbs)
    rwa [Int.natAbs_of_nonneg (Int.not_lt.mp hneg)] at h

theorem spellsPart_zeroPadded (h : n < 100) : SpellsPart (zeroPadded 2 n) n := by
  have hdigits : FixedDigits 2 (zeroPadded 2 n) n := fixedDigits_zeroPadded (by decide) h
  have hspells : SpellsPart ([] ++ zeroPadded 2 n) n :=
    .mk (List.forall_mem_nil _) hdigits.toDigits hdigits.length_eq.le
  rwa [List.nil_append] at hspells

/-- The text of a date spells it. -/
theorem spells_text (h : d.InCalendar) : Spells d.text d := by
  have hmonth := d.civil_spec.1.month_le
  have hday := d.civil_spec.1.day_le
  have hspells := Spells.mk (spellsYear_yearText d.civil.year)
    (spellsPart_zeroPadded (n := d.civil.month) (by omega))
    (spellsPart_zeroPadded (n := d.civil.day) (by omega)) h
  rwa [text, List.append_assoc, List.cons_append]

/-! ## Characters -/

theorem not_isBlank_of_mem_zeroPadded {width : Nat} {c : Char} (h : c ∈ zeroPadded width n) :
    ¬isBlank c :=
  not_isBlank_of_isDigit ((digits_zeroPadded width n).isDigit c h)

theorem not_isBlank_of_mem_yearText {c : Char} (h : c ∈ yearText year) : ¬isBlank c := by
  rw [yearText] at h
  split_ifs at h
  · exact not_isBlank_of_mem_zeroPadded h
  · rcases List.mem_cons.mp h with rfl | h
    · decide
    · exact not_isBlank_of_mem_zeroPadded h
  · rcases List.mem_cons.mp h with rfl | h
    · decide
    · exact not_isBlank_of_mem_zeroPadded h

theorem not_isBlank_of_mem_text {c : Char} (h : c ∈ d.text) : ¬isBlank c := by
  simp only [text, List.mem_append, List.mem_cons] at h
  rcases h with (h | rfl | h) | rfl | h
  · exact not_isBlank_of_mem_yearText h
  · decide
  · exact not_isBlank_of_mem_zeroPadded h
  · decide
  · exact not_isBlank_of_mem_zeroPadded h

theorem SpellsYear.colon_notMem (h : SpellsYear text year) : ':' ∉ text := by
  have hcolon : isBlank ':' = false := rfl
  cases h with
  | plus hblank hdigits => simp [hblank.notMem hcolon, hdigits.notMem]
  | minus hblank hdigits => simp [hblank.notMem hcolon, hdigits.notMem]
  | unsigned hblank hdigits => simp [hblank.notMem hcolon, hdigits.notMem]

theorem SpellsPart.colon_notMem (h : SpellsPart text n) : ':' ∉ text := by
  have hcolon : isBlank ':' = false := rfl
  obtain ⟨hblank, hdigits, -⟩ := h
  simp [hblank.notMem hcolon, hdigits.notMem]

/-- A text that spells a date has no colon in it. -/
theorem Spells.colon_notMem (h : Spells text d) : ':' ∉ text := by
  obtain ⟨hyear, hmonth, hday, -⟩ := h
  simp [hyear.colon_notMem, hmonth.colon_notMem, hday.colon_notMem]

end Daybook.Date
