import Daybook.Proofs.Range.Invalid
import Mathlib.Data.List.Induction

/-! # The start of a day

A local midnight is searched for among the offsets that a zone uses at any time. What is found is the
first instant that the timeline of the zone puts at that midnight, however many transitions there are
and however close to it, and nothing is found only where the timeline has no such instant. -/

namespace Daybook

variable {z : Zone} {d : Date} {i j : Instant}

namespace Zone

variable {second : Int} {offset : Offset}

/-! ## The timeline -/

/-- The offset in force at a UTC second. It is that of the last transition that has happened, and the
first offset of the zone before all transitions. -/
inductive InForce (z : Zone) (second : Int) : Offset → Prop
  | base (h : ∀ t ∈ z.transitions, second < t.1) : InForce z second z.base
  | transition {front rest : List (Int × Offset)} {start : Int} {offset : Offset}
      (hsplit : z.transitions = front ++ (start, offset) :: rest) (hstart : start ≤ second)
      (hrest : ∀ t ∈ rest, second < t.1) : InForce z second offset

/-- Transitions that are still to come do not count. -/
theorem foldl_of_forall_lt {transitions : List (Int × Offset)} (offset : Offset)
    (h : ∀ t ∈ transitions, second < t.1) :
    transitions.foldl (fun o t => if t.1 ≤ second then t.2 else o) offset = offset := by
  induction transitions with
  | nil => rfl
  | cons t rest ih =>
    obtain ⟨ht, hrest⟩ := List.forall_mem_cons.mp h
    rw [List.foldl_cons, if_neg (Int.not_le.mpr ht)]
    exact ih hrest

theorem InForce.offsetAt_eq (h : z.InForce second offset) : z.offsetAt second = offset.seconds := by
  rw [offsetAt]
  cases h with
  | base h => rw [foldl_of_forall_lt z.base h]
  | transition hsplit hstart hrest =>
    rw [hsplit, List.foldl_append, List.foldl_cons, if_pos hstart, foldl_of_forall_lt offset hrest]

/-- At every second some offset is in force. -/
theorem exists_inForce (z : Zone) (second : Int) : ∃ offset, z.InForce second offset := by
  obtain ⟨base, transitions⟩ := z
  induction transitions using List.reverseRecOn with
  | nil => exact ⟨base, .base (List.forall_mem_nil _)⟩
  | append_singleton front t ih =>
    by_cases ht : t.1 ≤ second
    · exact ⟨t.2, .transition rfl ht (List.forall_mem_nil _)⟩
    · -- The last transition is still to come, so what is in force without it is in force.
      have hlast : ∀ u ∈ [t], second < u.1 := by
        intro u hu
        rw [List.mem_singleton.mp hu]
        exact Int.not_le.mp ht
      obtain ⟨offset, hforce⟩ := ih
      cases hforce with
      | base h => exact ⟨base, .base (List.forall_mem_append.mpr ⟨h, hlast⟩)⟩
      | @transition past rest start _ hsplit hstart hrest =>
        have hsplit' : front ++ [t] = past ++ (start, offset) :: (rest ++ [t]) := by
          rw [show front = past ++ (start, offset) :: rest from hsplit, List.append_assoc,
            List.cons_append]
        exact ⟨offset, .transition hsplit' hstart (List.forall_mem_append.mpr ⟨hrest, hlast⟩)⟩

/-! ## Midnights on the timeline -/

/-- On the timeline the instant lies at the very start of the day. -/
structure IsStartOf (z : Zone) (d : Date) (i : Instant) : Prop where
  shown : ∃ offset, z.InForce i.second offset ∧ i.second + offset.seconds = d.number * daySeconds
  nano_eq : i.nano = 0

theorem isStartOf_iff :
    z.IsStartOf d i ↔ z.toLocal i.second = d.number * daySeconds ∧ i.nano = 0 := by
  constructor
  · intro h
    obtain ⟨offset, hforce, hshown⟩ := h.shown
    rw [toLocal, hforce.offsetAt_eq]
    exact ⟨hshown, h.nano_eq⟩
  · intro h
    obtain ⟨hshown, hnano⟩ := h
    obtain ⟨offset, hforce⟩ := z.exists_inForce i.second
    rw [toLocal, hforce.offsetAt_eq] at hshown
    exact ⟨⟨offset, hforce, hshown⟩, hnano⟩

section Inside

variable (hfirst : Date.firstNumber < d.number) (hlast : d.number ≤ Date.lastNumber)

include hfirst hlast

/-- Offsets are shorter than a day, so no midnight but the first one of the calendar can lie outside. -/
theorem inCalendar_of_midnight (h : z.toLocal second = d.number * daySeconds) :
    InCalendar second := by
  obtain ⟨hgt, hlt⟩ := near_of_toLocal_eq h
  simp only [InCalendar, daySeconds] at hgt hlt ⊢
  omega

theorem midnight_eq_ok_iff_first :
    z.midnight d = .ok i ↔ z.IsStartOf d i ∧ ∀ j, z.IsStartOf d j → i ≤ j := by
  rw [midnight_eq_ok_iff, midnight?, earliest?_eq_some_iff, isStartOf_iff]
  apply and_congr_right
  intro hi
  have hnano := hi.2
  constructor
  · intro hall j hj
    obtain ⟨hshown, hnano'⟩ := isStartOf_iff.mp hj
    have hle := (hall j.second hshown).2
    rw [Instant.le_def]
    omega
  · intro hall s hs
    have hin : InCalendar s := inCalendar_of_midnight hfirst hlast hs
    have hle : i.second < s ∨ i.second = s ∧ i.nano ≤ 0 :=
      Instant.le_def.mp (hall ⟨s, 0, hin, by decide⟩ (isStartOf_iff.mpr ⟨hs, rfl⟩))
    exact ⟨hin, by omega⟩

theorem lacksMidnight_iff : z.LacksMidnight d ↔ ∀ i, ¬z.IsStartOf d i := by
  constructor
  · intro h i hi
    have hshown := (isStartOf_iff.mp hi).1
    rcases h with hskips | ⟨s, hs, hout⟩
    · exact hskips i.second hshown
    · exact hout (inCalendar_of_midnight hfirst hlast hs)
  · intro hnone
    left
    intro s hs
    have hin : InCalendar s := inCalendar_of_midnight hfirst hlast hs
    exact hnone ⟨s, 0, hin, by decide⟩ (isStartOf_iff.mpr ⟨hs, rfl⟩)

/-- The start of a day is the first instant that the timeline of the zone puts there. There is one
exactly if the timeline puts any instant there, and that there is none is the only error. -/
theorem midnight_is_first :
    (∀ i, z.midnight d = .ok i ↔ z.IsStartOf d i ∧ ∀ j, z.IsStartOf d j → i ≤ j) ∧
    ((∃ i, z.midnight d = .ok i) ↔ ∃ i, z.IsStartOf d i) ∧
    (∀ e, z.midnight d = .error e ↔ e = .noMidnight d ∧ ∀ i, ¬z.IsStartOf d i) := by
  have herror : ∀ e, z.midnight d = .error e ↔ e = .noMidnight d ∧ ∀ i, ¬z.IsStartOf d i := by
    intro e
    rw [midnight_eq_error_iff, lacksMidnight_iff hfirst hlast, and_comm]
  refine ⟨fun i => midnight_eq_ok_iff_first hfirst hlast, ?_, herror⟩
  rw [exists_eq_ok_iff]
  constructor
  · intro hok
    by_contra hnone
    exact hok (.noMidnight d) ((herror _).mpr ⟨rfl, not_exists.mp hnone⟩)
  · intro hstart e he
    obtain ⟨i, hi⟩ := hstart
    exact ((herror e).mp he).2 i hi

end Inside

/-- Clocks that go back over midnight twice in one night, from 00:01 to 23:01 and from 00:01 to 23:31,
and a day later skip the half hour after midnight. -/
def restless : Zone :=
  ⟨.utc, [(1728000060, ⟨-3600, by decide, by decide⟩), (1728003660, ⟨-5400, by decide, by decide⟩),
    (1728091800, ⟨-3600, by decide, by decide⟩)]⟩

/-- One midnight comes three times and the first one starts the day, the next midnight does not come. -/
theorem midnight_is_first_restless :
    let first : Instant := ⟨1728000000, 0, by decide, by decide⟩
    let third : Instant := ⟨1728005400, 0, by decide, by decide⟩
    (Date.firstNumber < 20000 ∧ 20001 ≤ Date.lastNumber) ∧
    restless.midnight ⟨20000⟩ = .ok first ∧ restless.IsStartOf ⟨20000⟩ third ∧
    (∀ j, restless.IsStartOf ⟨20000⟩ j → first ≤ j) ∧
    restless.midnight ⟨20001⟩ = .error (.noMidnight ⟨20001⟩) ∧
    ∀ j, ¬restless.IsStartOf ⟨20001⟩ j := by
  intro first third
  have hok : restless.midnight ⟨20000⟩ = .ok first := rfl
  have hnone : restless.midnight ⟨20001⟩ = .error (.noMidnight ⟨20001⟩) := rfl
  obtain ⟨hfirst, -, -⟩ := midnight_is_first (z := restless) (d := ⟨20000⟩) (by decide) (by decide)
  obtain ⟨-, -, herror⟩ := midnight_is_first (z := restless) (d := ⟨20001⟩) (by decide) (by decide)
  refine ⟨by decide, hok, isStartOf_iff.mpr ⟨rfl, rfl⟩, ?_, hnone, ?_⟩
  · exact ((hfirst first).mp hok).2
  · exact ((herror _).mp hnone).2

end Zone

end Daybook
