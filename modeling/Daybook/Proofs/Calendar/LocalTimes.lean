import Daybook.Calendar.Zone

/-! # Which local times a zone shows

Clocks that are set forward skip local times, and clocks that are set back show some of them twice. The
first instant with a local time is there if none is outside the calendar, and the only one if the local
time comes just once. -/

namespace Daybook

variable {i : Instant}

namespace Instant

theorem of?_eq_some_iff {second : Int} {nano : Nat} :
    of? second nano = some i ↔ i.second = second ∧ i.nano = nano := by
  obtain ⟨second', nano', hc, hn⟩ := i
  rw [of?]
  constructor
  · intro h
    split at h
    · cases h
      exact ⟨rfl, rfl⟩
    · contradiction
  · rintro ⟨rfl, rfl⟩
    exact dif_pos ⟨hc, hn⟩

theorem second_of_ofMillis? {ms : Int} (h : ofMillis? ms = some i) : i.second = ms / 1000 :=
  (of?_eq_some_iff.mp h).1

end Instant

namespace Zone

variable {z : Zone} {localSecond second : Int} {nano : Nat}

theorem mem_candidates : second ∈ z.candidates localSecond ↔
    z.toLocal second = localSecond ∧ ∀ s, z.toLocal s = localSecond → InCalendar s := by
  have hall : (z.occurrences localSecond).all (fun s => decide (InCalendar s)) ↔
      ∀ s, z.toLocal s = localSecond → InCalendar s := by
    simp [mem_occurrences]
  rw [candidates]
  split
  · next h =>
    rw [mem_occurrences]
    exact ⟨fun hs => ⟨hs, hall.mp h⟩, And.left⟩
  · next h =>
    rw [hall] at h
    simp [h]

/-! ## Local times without an instant -/

/-- The zone never shows the local second. -/
def Skips (z : Zone) (localSecond : Int) : Prop :=
  ∀ s, z.toLocal s ≠ localSecond

/-- The zone shows the local second before the calendar begins or after it ends. -/
def ShowsOutside (z : Zone) (localSecond : Int) : Prop :=
  ∃ s, z.toLocal s = localSecond ∧ ¬InCalendar s

theorem candidates_eq_nil_iff :
    z.candidates localSecond = [] ↔ z.Skips localSecond ∨ z.ShowsOutside localSecond := by
  rw [List.eq_nil_iff_forall_not_mem]
  constructor
  · intro hnone
    by_cases houtside : z.ShowsOutside localSecond
    · exact .inr houtside
    · refine .inl fun s hs => hnone s (mem_candidates.mpr ⟨hs, fun t ht => ?_⟩)
      exact Decidable.byContradiction fun hout => houtside ⟨t, ht, hout⟩
  · rintro h second hmem
    obtain ⟨hshown, hin⟩ := mem_candidates.mp hmem
    rcases h with hskips | ⟨s, hs, hout⟩
    · exact hskips second hshown
    · exact hout (hin s hs)

/-- The earliest instant is the first one with its local time, and there is one if no instant with that
local time lies outside the calendar. -/
theorem earliest?_eq_some_iff : z.earliest? localSecond nano = some i ↔
    (z.toLocal i.second = localSecond ∧ i.nano = nano) ∧
      ∀ s, z.toLocal s = localSecond → InCalendar s ∧ i.second ≤ s := by
  simp only [earliest?, Option.bind_eq_some_iff, List.min?_eq_some_iff, mem_candidates,
    Instant.of?_eq_some_iff]
  constructor
  · rintro ⟨second, ⟨⟨hshown, hin⟩, hle⟩, rfl, rfl⟩
    exact ⟨⟨hshown, rfl⟩, fun s hs => ⟨hin s hs, hle s ⟨hs, hin⟩⟩⟩
  · rintro ⟨⟨hshown, rfl⟩, hall⟩
    exact ⟨i.second, ⟨⟨hshown, fun s hs => (hall s hs).1⟩, fun s hs => (hall s hs.1).2⟩, rfl, rfl⟩

theorem earliest?_eq_none_iff (h : nano < 2000000000) : z.earliest? localSecond nano = none ↔
    z.Skips localSecond ∨ z.ShowsOutside localSecond := by
  rw [← candidates_eq_nil_iff]
  constructor
  · intro hnone
    cases hmin : (z.candidates localSecond).min? with
    | none => exact List.min?_eq_none_iff.mp hmin
    | some second =>
      obtain ⟨hshown, hin⟩ := mem_candidates.mp (List.min?_mem hmin)
      have hsome : Instant.of? second nano = some ⟨second, nano, hin second hshown, h⟩ :=
        Instant.of?_eq_some_iff.mpr ⟨rfl, rfl⟩
      simp [earliest?, hmin, hsome] at hnone
  · intro hnil
    simp [earliest?, hnil]

/-! ## Local times with one instant -/

/-- The zone shows the local second at one instant of the calendar and never else. -/
def ShowsOnce (z : Zone) (localSecond : Int) : Prop :=
  ∃ i : Instant, ∀ s, z.toLocal s = localSecond ↔ s = i.second

/-- The zone shows the local second more than once. -/
def Repeats (z : Zone) (localSecond : Int) : Prop :=
  ∃ s t, s ≠ t ∧ z.toLocal s = localSecond ∧ z.toLocal t = localSecond

/-- Within a day of the local second the clocks of the zone are not changed. -/
def Steady (z : Zone) (localSecond : Int) : Prop :=
  ∃ offset, ∀ s, localSecond - daySeconds < s → s < localSecond + daySeconds → z.offsetAt s = offset

/-- The only instant with a local time is an instant that has it, when no other second has. -/
theorem only?_eq_some_iff : z.only? localSecond nano = some i ↔
    i.nano = nano ∧ ∀ s, z.toLocal s = localSecond ↔ s = i.second := by
  constructor
  · intro h
    cases hfound : z.candidates localSecond with
    | nil => simp [only?, hfound] at h
    | cons second others =>
      simp only [only?, hfound, Option.ite_none_right_eq_some, List.all_eq_true,
        decide_eq_true_eq, Instant.of?_eq_some_iff] at h
      obtain ⟨hothers, hsecond, hnano⟩ := h
      have hmem : ∀ s, s ∈ second :: others ↔ s = second := by
        intro s
        rw [List.mem_cons, or_iff_left_iff_imp]
        exact hothers s
      obtain ⟨hshown, hin⟩ := mem_candidates.mp (hfound ▸ (hmem second).mpr rfl)
      refine ⟨hnano, fun s => ⟨fun hs => ?_, fun hs => ?_⟩⟩
      · rw [hsecond, ← hmem, ← hfound]
        exact mem_candidates.mpr ⟨hs, hin⟩
      · rw [hs, hsecond, hshown]
  · rintro ⟨rfl, honly⟩
    have hin : ∀ s, z.toLocal s = localSecond → InCalendar s := by
      intro s hs
      rw [(honly s).mp hs]
      exact i.inCalendar
    have hall : ∀ s ∈ z.candidates localSecond, s = i.second := fun s hs =>
      (honly s).mp (mem_candidates.mp hs).1
    have hmem : i.second ∈ z.candidates localSecond :=
      mem_candidates.mpr ⟨(honly _).mpr rfl, hin⟩
    cases hfound : z.candidates localSecond with
    | nil => simp [hfound] at hmem
    | cons second others =>
      rw [hfound, List.forall_mem_cons] at hall
      obtain ⟨rfl, hothers⟩ := hall
      simpa [only?, hfound, Instant.of?_eq_some_iff] using hothers

theorem not_showsOnce_iff : ¬z.ShowsOnce localSecond ↔
    z.Skips localSecond ∨ z.Repeats localSecond ∨ z.ShowsOutside localSecond := by
  constructor
  · intro h
    by_cases hskips : z.Skips localSecond
    · exact .inl hskips
    by_cases hrepeats : z.Repeats localSecond
    · exact .inr (.inl hrepeats)
    by_cases houtside : z.ShowsOutside localSecond
    · exact .inr (.inr houtside)
    obtain ⟨second, hshown⟩ : ∃ s, z.toLocal s = localSecond := by
      simpa [Skips] using hskips
    have hin : InCalendar second := Decidable.byContradiction fun hout =>
      houtside ⟨second, hshown, hout⟩
    have honly : ∀ s, z.toLocal s = localSecond → s = second := fun s hs =>
      Decidable.byContradiction fun hne => hrepeats ⟨s, second, hne, hs, hshown⟩
    exact absurd ⟨⟨second, 0, hin, by decide⟩, fun s => ⟨honly s, fun hs => hs ▸ hshown⟩⟩ h
  · rintro h ⟨i, honly⟩
    rcases h with hskips | ⟨s, t, hne, hs, ht⟩ | ⟨s, hs, hout⟩
    · exact hskips i.second ((honly i.second).mpr rfl)
    · exact hne (((honly s).mp hs).trans ((honly t).mp ht).symm)
    · exact hout ((honly s).mp hs ▸ i.inCalendar)

theorem offsetAt_bounds (z : Zone) (second : Int) :
    -daySeconds < z.offsetAt second ∧ z.offsetAt second < daySeconds :=
  ⟨Offset.gt _, Offset.lt _⟩

/-- A second that shows the local second lies within a day of it. -/
theorem near_of_toLocal_eq {second : Int} (h : z.toLocal second = localSecond) :
    localSecond - daySeconds < second ∧ second < localSecond + daySeconds := by
  have hoffset := z.offsetAt_bounds second
  rw [toLocal] at h
  omega

/-- Clocks that are not changed around a local second show it just once. -/
theorem Steady.showsOnce (h : z.Steady localSecond)
    (hin : ∀ s, z.toLocal s = localSecond → InCalendar s) : z.ShowsOnce localSecond := by
  obtain ⟨offset, hoffset⟩ := h
  have hbounds := z.offsetAt_bounds localSecond
  have hday : 0 < daySeconds := by decide
  rw [hoffset localSecond (by omega) (by omega)] at hbounds
  have hshown : z.toLocal (localSecond - offset) = localSecond := by
    rw [toLocal, hoffset _ (by omega) (by omega)]
    omega
  refine ⟨⟨localSecond - offset, 0, hin _ hshown, by decide⟩, fun s => ⟨fun hs => ?_, ?_⟩⟩
  · obtain ⟨hgt, hlt⟩ := near_of_toLocal_eq hs
    rw [toLocal, hoffset s hgt hlt] at hs
    change s = localSecond - offset
    omega
  · rintro rfl
    exact hshown

end Zone

end Daybook
