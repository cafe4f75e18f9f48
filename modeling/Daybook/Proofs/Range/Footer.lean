import Daybook.Proofs.Calendar.Civil
import Daybook.Proofs.Text.Digits
import Daybook.Proofs.Text.Whole
import Daybook.Range.Picker

/-! # The line under the calendar

The line tells the first and the last day of a selection, so that no two selections of other days have the
same one, and none has the line that stands there before anything is selected. -/

namespace Daybook

open Text

namespace Date

variable {m n : Nat} {d e : Date} {c : Char}

/-! ## Written days -/

theorem isAlpha_monthName (month : Nat) : ∀ c ∈ (monthName month).toList, c.isAlpha := by
  unfold monthName
  split <;> exact List.all_eq_true.mp (by decide)

theorem isAlpha_ordinalSuffix (n : Nat) : ∀ c ∈ (ordinalSuffix n).toList, c.isAlpha := by
  unfold ordinalSuffix
  split
  · exact List.all_eq_true.mp (by decide)
  · split <;> exact List.all_eq_true.mp (by decide)

theorem head?_ordinalSuffix_append (n : Nat) (rest : List Char) :
    ∀ c ∈ ((ordinalSuffix n).toList ++ rest).head?, ¬c.isDigit := by
  unfold ordinalSuffix
  split
  · exact forall_head?_cons (by decide) _
  · split <;> exact forall_head?_cons (by decide) _

theorem eq_of_monthName_eq (hm : 1 ≤ m ∧ m ≤ 12) (hn : 1 ≤ n ∧ n ≤ 12)
    (h : monthName m = monthName n) : m = n := by
  have hall : ∀ m ∈ List.range' 1 12, ∀ n ∈ List.range' 1 12, monthName m = monthName n → m = n := by
    decide
  exact hall m (by rw [List.mem_range'_1]; omega) n (by rw [List.mem_range'_1]; omega) h

/-- A written day is its month, its day of the month with a suffix, and its year. -/
theorem toList_long (d : Date) : d.long.toList = (monthName d.civil.month).toList ++
    ' ' :: (digitsOf d.civil.day ++ ((ordinalSuffix d.civil.day).toList ++
      ',' :: ' ' :: signed d.civil.year)) := by
  simp [long]

/-- There are only letters, digits, blanks, commas and minus signs. -/
theorem mem_long (h : c ∈ d.long.toList) : c.isAlphanum ∨ c = ' ' ∨ c = ',' ∨ c = '-' := by
  have hletter : c.isAlpha → c.isAlphanum := by
    intro hc
    rw [Char.isAlphanum, hc, Bool.true_or]
  have hdigit : c.isDigit → c.isAlphanum := by
    intro hc
    rw [Char.isAlphanum, hc, Bool.or_true]
  simp only [toList_long, List.mem_append, List.mem_cons] at h
  rcases h with h | rfl | h | h | rfl | rfl | h
  · exact .inl (hletter (isAlpha_monthName _ c h))
  · exact .inr (.inl rfl)
  · exact .inl (hdigit (isDigit_of_mem_digitsOf h))
  · exact .inl (hletter (isAlpha_ordinalSuffix _ c h))
  · exact .inr (.inr (.inl rfl))
  · exact .inr (.inl rfl)
  · exact (mem_signed h).elim (fun h => .inr (.inr (.inr h))) fun h => .inl (hdigit h)

theorem ne_of_mem_long (h : c ∈ d.long.toList) : c ≠ '–' ∧ c ≠ '.' := by
  constructor <;>
  · rintro rfl
    exact absurd (mem_long h) (by decide)

/-- No two days are written alike. -/
theorem long_injective : Function.Injective long := by
  intro d e h
  have hlist := congrArg String.toList h
  rw [toList_long, toList_long] at hlist
  obtain ⟨hname, hlist⟩ := append_inj_of_head (isAlpha_monthName _) (isAlpha_monthName _)
    (forall_head?_cons (by decide) _) (forall_head?_cons (by decide) _) hlist
  obtain ⟨hday, hlist⟩ := append_inj_of_head (fun _ => isDigit_of_mem_digitsOf)
    (fun _ => isDigit_of_mem_digitsOf) (head?_ordinalSuffix_append _ _)
    (head?_ordinalSuffix_append _ _) (List.cons.inj hlist).2
  have hday' : d.civil.day = e.civil.day := digitsOf_injective hday
  rw [hday', List.append_cancel_left_eq] at hlist
  have hyear : d.civil.year = e.civil.year := signed_injective (by simpa using hlist)
  have hd := d.civil_spec
  have he := e.civil_spec
  have hmonth : d.civil.month = e.civil.month :=
    eq_of_monthName_eq ⟨hd.1.1, hd.1.month_le⟩ ⟨he.1.1, he.1.month_le⟩ (String.toList_injective hname)
  calc d
    _ = ofCivil ⟨d.civil.year, d.civil.month, d.civil.day⟩ := hd.2.symm
    _ = ofCivil ⟨e.civil.year, e.civil.month, e.civil.day⟩ := by rw [hyear, hmonth, hday']
    _ = e := he.2

end Date

namespace Range

variable {first last last' : Date} {c : Char}

/-- What follows the first day in the line: the last day after a dash, if it is another one. -/
def footerRest (first last : Date) : List Char :=
  if first = last then [] else '–' :: last.long.toList

theorem toList_footer (z : Zone) (r : Range) : (footer z (some r)).toList =
    (z.dateAt r.start).long.toList ++ footerRest (z.dateAt r.start) (z.dateAt r.stop) := by
  rw [footer, footerRest]
  split <;> simp [*]

theorem head?_footerRest : ∀ c ∈ (footerRest first last).head?, c = '–' := by
  rw [footerRest]
  split
  · simp
  · exact forall_head?_cons (p := (· = '–')) rfl _

theorem eq_of_footerRest_eq (h : footerRest first last = footerRest first last') : last = last' := by
  rw [footerRest, footerRest] at h
  split at h <;> split at h
  · next heq heq' => exact heq.symm.trans heq'
  · contradiction
  · contradiction
  · exact Date.long_injective (String.toList_injective (List.cons.inj h).2)

theorem period_notMem_footerRest : '.' ∉ footerRest first last := by
  rw [footerRest]
  split
  · exact List.not_mem_nil
  · rw [List.mem_cons, not_or]
    exact ⟨by decide, fun h => absurd rfl (Date.ne_of_mem_long h).2⟩

/-- Two selections, each with its own clocks, have the same line if they have the same first day and the
same last day on their clocks. No selection has the line that asks for one. -/
theorem footer_tells_days (z w : Zone) (r q : Range) :
    (footer z (some r) = footer w (some q) ↔
      z.dateAt r.start = w.dateAt q.start ∧ z.dateAt r.stop = w.dateAt q.stop) ∧
    footer z (some r) ≠ footer z none := by
  refine ⟨⟨fun h => ?_, ?_⟩, fun h => ?_⟩
  · have hlist := congrArg String.toList h
    rw [toList_footer, toList_footer] at hlist
    -- The first dash is where the first day ends.
    have hlong : ∀ d : Date, ∀ c ∈ d.long.toList, decide (c ≠ '–') := fun d c hc =>
      decide_eq_true (Date.ne_of_mem_long hc).1
    have hdash : ∀ first last : Date, ∀ c ∈ (footerRest first last).head?, ¬decide (c ≠ '–') :=
      fun _ _ c hc => by simpa using head?_footerRest c hc
    obtain ⟨hfirst, hrest⟩ := append_inj_of_head (hlong _) (hlong _) (hdash _ _) (hdash _ _) hlist
    have hstart := Date.long_injective (String.toList_injective hfirst)
    rw [hstart] at hrest
    exact ⟨hstart, eq_of_footerRest_eq hrest⟩
  · rintro ⟨hstart, hstop⟩
    simp only [footer, hstart, hstop]
  · have hperiod : '.' ∈ (footer z (some r)).toList := by
      rw [h, footer]
      decide
    rw [toList_footer, List.mem_append] at hperiod
    exact hperiod.elim (fun h => (Date.ne_of_mem_long h).2 rfl) period_notMem_footerRest

end Range

end Daybook
