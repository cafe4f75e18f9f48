import Daybook.Bridge.Answer
import Daybook.Proofs.Table.Queries

/-! # The days of the table

The days with activity come in ascending order, each once. Where days are counted from, at midnight
of 1970-01-01 on the local clock, the direction of rounding changes: a row before that midnight is
listed under the day after its own, unless it starts at a midnight itself. -/

namespace Daybook

namespace Table

/-! ## Days of starts -/

/-- The start of the local day that a time lies in; all in milliseconds. -/
def localMidnight (offset ms : Int) : Int :=
  (ms + offset) / dayMillis * dayMillis - offset

/-- The day under which a row that starts at a time is listed. -/
def listedDay (offset ms : Int) : Int :=
  if 0 ≤ ms + offset ∨ dayMillis ∣ ms + offset then localMidnight offset ms
  else localMidnight offset ms + dayMillis

variable {offset ms : Int}

theorem listedDay_of_nonneg (h : 0 ≤ ms + offset) : listedDay offset ms = localMidnight offset ms :=
  if_pos (.inl h)

/-- A quotient that is rounded toward zero is one more than the number of the day, if the number is
negative and not exact. -/
theorem tdiv_dayMillis (offset ms : Int) :
    (ms + offset).tdiv dayMillis * dayMillis - offset = listedDay offset ms := by
  rw [Int.tdiv_eq_ediv, listedDay, localMidnight]
  split
  · rw [add_zero]
  · have hsign : dayMillis.sign = 1 := rfl
    rw [hsign, Int.add_mul]
    omega

/-- No step on the way to the listed day is larger than the time or the offset. -/
theorem within_tdiv_dayMillis (hms : Within limit64 ms) (hoffset : offset.natAbs ≤ 50400000)
    (hfit : Within limit64 (ms + offset)) :
    Within limit64 ((ms + offset).tdiv dayMillis) ∧
      Within limit64 ((ms + offset).tdiv dayMillis * dayMillis) ∧
      Within limit64 ((ms + offset).tdiv dayMillis * dayMillis - offset) := by
  have hlow : 0 ≤ ms + offset → 0 ≤ (ms + offset).tdiv dayMillis * dayMillis ∧
      (ms + offset).tdiv dayMillis * dayMillis ≤ ms + offset := by
    intro h
    rw [Int.tdiv_eq_ediv_of_nonneg h, dayMillis]
    omega
  have hhigh : ms + offset ≤ 0 → (ms + offset).tdiv dayMillis * dayMillis ≤ 0 ∧
      ms + offset ≤ (ms + offset).tdiv dayMillis * dayMillis := by
    intro h
    have hneg : (ms + offset).tdiv dayMillis = -((-(ms + offset)) / dayMillis) := by
      rw [← Int.tdiv_eq_ediv_of_nonneg (by omega), Int.neg_tdiv, neg_neg]
    rw [hneg, dayMillis]
    omega
  simp only [Within, limit64, dayMillis] at *
  omega

theorem Row.dayStart_eq {r : Row} {start : Int64} (hstart : r.start = .integer start)
    (hoffset : offset.natAbs ≤ 50400000) (hfit : Within limit64 (start.toInt + offset)) :
    r.dayStart offset = .whole (.ofInt (listedDay offset start.toInt)) := by
  obtain ⟨hquotient, hproduct, hday⟩ :=
    within_tdiv_dayMillis (within_toInt start) hoffset hfit
  have hwithin : Within limit64 offset := by
    simp only [Within, limit64]
    omega
  have hlength : Within limit64 dayMillis := by decide
  have hcell : Quantity.ofCell r.start = .whole (.ofInt start.toInt) := by
    rw [hstart, Int64.ofInt_toInt]
    rfl
  have hlocal : Quantity.combine .sum (.whole (.ofInt start.toInt)) (.whole (.ofInt offset)) =
      .whole (.ofInt (start.toInt + offset)) :=
    Quantity.combine_whole .sum (within_toInt start) hwithin hfit
  have hnumber : Quantity.combine .quotient (.whole (.ofInt (start.toInt + offset)))
      (.whole (.ofInt dayMillis)) = .whole (.ofInt ((start.toInt + offset).tdiv dayMillis)) :=
    Quantity.combine_whole .quotient hfit hlength hquotient
  have hmidnight : Quantity.combine .product
      (.whole (.ofInt ((start.toInt + offset).tdiv dayMillis))) (.whole (.ofInt dayMillis)) =
      .whole (.ofInt ((start.toInt + offset).tdiv dayMillis * dayMillis)) :=
    Quantity.combine_whole .product hquotient hlength hproduct
  have hutc : Quantity.combine .difference
      (.whole (.ofInt ((start.toInt + offset).tdiv dayMillis * dayMillis))) (.whole (.ofInt offset)) =
      .whole (.ofInt ((start.toInt + offset).tdiv dayMillis * dayMillis - offset)) :=
    Quantity.combine_whole .difference hproduct hwithin hday
  rw [Row.dayStart, hcell, Quantity.ofInt_eq_whole hwithin, Quantity.ofInt_eq_whole hlength,
    hlocal, hnumber, hmidnight, hutc, tdiv_dayMillis]

/-! ## Distinct days in order -/

theorem eraseDupsBy_map_whole (days : List Int64) :
    (days.map Quantity.whole).eraseDupsBy Quantity.same = days.eraseDups.map .whole := by
  match days with
  | [] => rfl
  | day :: days =>
    have hrest : (days.map Quantity.whole).filter (fun q => Quantity.same q (.whole day) = false) =
        (days.filter fun d => !d == day).map .whole := by
      rw [List.filter_map]
      apply congrArg
      apply List.filter_congr
      intro d _
      rw [Bool.eq_iff_iff]
      simp [Quantity.same]
    rw [List.map_cons, List.eraseDupsBy_cons, List.eraseDups_cons, List.map_cons, hrest,
      eraseDupsBy_map_whole]
termination_by days.length
decreasing_by exact Nat.lt_succ_of_le (List.length_filter_le _ _)

variable {rows : List Row} {starts : List Int64}

theorem map_dayStart (hrows : rows.map (·.start) = starts.map .integer)
    (hoffset : offset.natAbs ≤ 50400000)
    (hfit : ∀ start ∈ starts, Within limit64 (start.toInt + offset)) :
    rows.map (Row.dayStart offset) =
      (starts.map fun start => Int64.ofInt (listedDay offset start.toInt)).map .whole := by
  induction rows generalizing starts with
  | nil =>
    rw [List.map_nil, eq_comm, List.map_eq_nil_iff] at hrows
    rw [hrows]
    rfl
  | cons row rows ih =>
    obtain ⟨start, rest, rfl, hstart, hrest⟩ := List.map_eq_cons_iff.mp hrows.symm
    rw [List.map_cons, List.map_cons, List.map_cons,
      Row.dayStart_eq hstart.symm hoffset (hfit start List.mem_cons_self),
      ih hrest.symm fun s hs => hfit s (List.mem_cons_of_mem start hs)]

theorem activeDays?_eq (hrows : rows.map (·.start) = starts.map .integer)
    (hoffset : offset.natAbs ≤ 50400000)
    (hfit : ∀ start ∈ starts, Within limit64 (start.toInt + offset)) :
    activeDays? offset rows = some ((starts.map fun start =>
      Int64.ofInt (listedDay offset start.toInt)).eraseDups.mergeSort fun d e => decide (d ≤ e)) := by
  have hdays := map_dayStart hrows hoffset hfit
  have hread : ∀ days : List Int64, (days.map Quantity.whole).mapM Quantity.toInt64? = some days := by
    intro days
    rw [List.mapM_map]
    exact (mapM_of_eq_some fun day _ => rfl).trans (by rw [List.map_id'])
  simp only [activeDays?, hdays, eraseDupsBy_map_whole, hread, Option.bind_eq_bind,
    Option.bind_some]
  rfl

/-- The listed days of whole starts, in order. -/
theorem exists_activeDays? (hrows : rows.map (·.start) = starts.map .integer)
    (hoffset : offset.natAbs ≤ 50400000)
    (hfit : ∀ start ∈ starts, Within limit64 (start.toInt + offset)) :
    ∃ days, activeDays? offset rows = some days ∧ days.Pairwise (· < ·) ∧
      ∀ day : Int, (∃ d ∈ days, d.toInt = day) ↔ ∃ start ∈ starts, listedDay offset start.toInt = day := by
  refine ⟨_, activeDays?_eq hrows hoffset hfit, pairwise_lt_mergeSort_eraseDups _, fun day => ?_⟩
  have hexact : ∀ start ∈ starts,
      (Int64.ofInt (listedDay offset start.toInt)).toInt = listedDay offset start.toInt := by
    intro start hstart
    have hwithin :=
      (within_tdiv_dayMillis (within_toInt start) hoffset (hfit start hstart)).2.2
    rw [tdiv_dayMillis] at hwithin
    exact Int64.toInt_ofInt_of_le hwithin.1 hwithin.2
  simp only [List.mem_mergeSort, List.mem_eraseDups, List.mem_map, exists_exists_and_eq_and]
  exact exists_congr fun start => and_congr_right fun hstart => by rw [hexact start hstart]

theorem natAbs_clampMinutes (minutes : Int) :
    (Bridge.clampMinutes minutes * 60000).natAbs ≤ 50400000 := by
  rw [Bridge.clampMinutes]
  omega

/-- The days that a client asks for come in ascending order, each once. They are the days of the rows
from midnight of 1970-01-01 on the client's clock on. A row before it counts for the day after its own,
unless it starts at a midnight. -/
theorem activeDays?_lists_days (minutes : Int)
    (hrows : rows.map (·.start) = starts.map .integer)
    (hfit : ∀ start ∈ starts,
      Within limit64 (start.toInt + Bridge.clampMinutes minutes * 60000)) :
    ∃ days, activeDays? (Bridge.clampMinutes minutes * 60000) rows = some days ∧
      days.Pairwise (· < ·) ∧
      (∀ day : Int, (∃ d ∈ days, d.toInt = day) ↔
        ∃ start ∈ starts, listedDay (Bridge.clampMinutes minutes * 60000) start.toInt = day) ∧
      ((∀ start ∈ starts, 0 ≤ start.toInt + Bridge.clampMinutes minutes * 60000 ∨
          dayMillis ∣ start.toInt + Bridge.clampMinutes minutes * 60000) →
        ∀ day : Int, (∃ d ∈ days, d.toInt = day) ↔
          ∃ start ∈ starts,
            localMidnight (Bridge.clampMinutes minutes * 60000) start.toInt = day) := by
  obtain ⟨days, hdays, horder, hmem⟩ :=
    exists_activeDays? hrows (natAbs_clampMinutes minutes) hfit
  refine ⟨days, hdays, horder, hmem, fun hexact day => (hmem day).trans ?_⟩
  exact exists_congr fun start => and_congr_right fun hstart => by
    rw [listedDay, if_pos (hexact start hstart)]

/-- A row for each start. -/
def rowsAt (starts : List Int64) : List Row :=
  starts.map fun start => ⟨.integer start, .integer start, .integer 1, .text "/bin/a", .text ""⟩

theorem activeDays?_lists_days_early_rows :
    let starts : List Int64 := [3600000, -79200000, 93600000, 7200000, 93600000]
    (rowsAt starts).map (·.start) = starts.map .integer ∧
    (∀ start ∈ starts, Within limit64 (start.toInt + Bridge.clampMinutes (-120) * 60000)) ∧
    ∃ days, activeDays? (Bridge.clampMinutes (-120) * 60000) (rowsAt starts) = some days ∧
      days.Pairwise (· < ·) ∧
      ∀ day : Int, (∃ d ∈ days, d.toInt = day) ↔ day ∈ [7200000, -79200000, 93600000] := by
  intro starts
  have hrows : (rowsAt starts).map (·.start) = starts.map .integer := rfl
  have hfit : ∀ start ∈ starts,
      Within limit64 (start.toInt + Bridge.clampMinutes (-120) * 60000) := by
    intro start hstart
    simp only [starts, List.mem_cons, List.not_mem_nil, or_false] at hstart
    rcases hstart with rfl | rfl | rfl | rfl | rfl <;> decide
  obtain ⟨days, hdays, horder, hmem, -⟩ := activeDays?_lists_days (-120) hrows hfit
  have hlisted : starts.map (fun start =>
      listedDay (Bridge.clampMinutes (-120) * 60000) start.toInt) =
        [7200000, -79200000, 93600000, 7200000, 93600000] := by
    decide +kernel
  refine ⟨hrows, hfit, days, hdays, horder, fun day => ?_⟩
  rw [hmem, ← List.mem_map, hlisted]
  simp only [List.mem_cons, List.not_mem_nil, or_false]
  omega

/-- At one o'clock on 1970-01-01, where the clock shows eleven of the evening before, a row counts for
the day that only begins an hour later. -/
theorem activeDays?_rounds_up_early_row :
    ¬∃ days, activeDays? (Bridge.clampMinutes (-120) * 60000) (rowsAt [3600000]) = some days ∧
      ∀ day : Int, (∃ d ∈ days, d.toInt = day) ↔
        ∃ start ∈ [(3600000 : Int64)],
          localMidnight (Bridge.clampMinutes (-120) * 60000) start.toInt = day := by
  rintro ⟨days, hdays, hmem⟩
  have hlist : activeDays? (Bridge.clampMinutes (-120) * 60000) (rowsAt [3600000]) =
      some [7200000] := by
    decide +kernel
  obtain rfl := Option.some.inj (hdays.symm.trans hlist)
  obtain ⟨start, hstart, hday⟩ := (hmem 7200000).mp ⟨7200000, List.mem_cons_self, by decide⟩
  obtain rfl := List.mem_singleton.mp hstart
  exact absurd hday (by decide)

end Table

end Daybook
