import Daybook.Proofs.Table.Records
import Daybook.Proofs.Table.Selected
import Daybook.Proofs.Table.Usages

/-! # Adjacent bounds

Bounds hold their lower end and not their upper one, so two bounds that meet share no row and lose none.
The records of both together are those of the first followed by those of the second, and the time per
path is the sum of the two times. -/

namespace Daybook

namespace Table

variable {lower middle upper : Int} {rows : List Row} {r : Row}

/-! ## Rows -/

theorem inside_front (hupper : middle ≤ upper) : Bounds.Inside ⟨lower, middle⟩ ⟨lower, upper⟩ :=
  ⟨le_refl lower, hupper⟩

theorem inside_rest (hlower : lower ≤ middle) : Bounds.Inside ⟨middle, upper⟩ ⟨lower, upper⟩ :=
  ⟨hlower, le_refl upper⟩

section Meeting

variable (hlower : lower ≤ middle) (hupper : middle ≤ upper)

include hlower

/-- Of the rows in both bounds together, those of the second are those that are not in the first. -/
theorem startsIn_rest_iff :
    r.StartsIn ⟨middle, upper⟩ ↔ r.StartsIn ⟨lower, upper⟩ ∧ ¬r.StartsIn ⟨lower, middle⟩ := by
  have hle : (lower : ℚ) ≤ middle := by exact_mod_cast hlower
  constructor
  · intro h
    refine ⟨h.of_inside (inside_rest hlower), ?_⟩
    intro hfront
    obtain ⟨q, hq, -, hlt⟩ := hfront
    obtain ⟨q', hq', hge, -⟩ := h
    rw [hq, Option.some.injEq] at hq'
    rw [hq'] at hlt
    exact absurd hlt (not_lt.mpr hge)
  · intro h
    obtain ⟨⟨q, hq, hge, hlt⟩, hnot⟩ := h
    refine ⟨q, hq, ?_, hlt⟩
    by_contra hbelow
    exact hnot ⟨q, hq, hge, not_le.mp hbelow⟩

include hupper

theorem selected_append_perm (rows : List Row) :
    (selected ⟨lower, middle⟩ rows ++ selected ⟨middle, upper⟩ rows).Perm
      (selected ⟨lower, upper⟩ rows) := by
  have hfront : selected ⟨lower, middle⟩ rows =
      (selected ⟨lower, upper⟩ rows).filter fun r => r.StartsIn ⟨lower, middle⟩ := by
    rw [← selected_selected (inside_front hupper), selected_eq_filter ⟨lower, middle⟩]
  have hrest : selected ⟨middle, upper⟩ rows =
      (selected ⟨lower, upper⟩ rows).filter fun r => !decide (r.StartsIn ⟨lower, middle⟩) := by
    rw [selected_eq_filter, selected_eq_filter, List.filter_filter]
    apply List.filter_congr
    intro r _
    rw [Bool.eq_iff_iff]
    simp [startsIn_rest_iff hlower, and_comm]
  rw [hfront, hrest]
  exact List.filter_append_perm _ _

/-- The lengths in both bounds together are those in the first and those in the second. -/
theorem lengthsIn_append_perm (h : ∀ r ∈ rows, r.IsTimed) :
    (lengthsIn ⟨lower, middle⟩ rows ++ lengthsIn ⟨middle, upper⟩ rows).Perm
      (lengthsIn ⟨lower, upper⟩ rows) := by
  rw [lengthsIn_eq h, lengthsIn_eq h, lengthsIn_eq h, ← List.map_append]
  exact (selected_append_perm hlower hupper rows).map Row.entry

end Meeting

/-! ## Records -/

/-- Of the records with one start a condition on the start keeps all or none. -/
theorem filter_start_filter (p : Int64 → Bool) (start : Int64) (records : List Record) :
    (records.filter fun r => p r.start).filter (·.start = start) =
      if p start then records.filter (·.start = start) else [] := by
  rw [List.filter_filter]
  by_cases h : p start
  · rw [if_pos h]
    apply List.filter_congr
    intro r _
    by_cases hr : r.start = start <;> simp [hr, h]
  · rw [if_neg h, List.filter_eq_nil_iff]
    intro r _
    by_cases hr : r.start = start <;> simp [hr, h]

/-- Records by their starts before a time, and then records by their starts from that time on, are
records by their starts. -/
theorem ByStart.append {front rest records : List Record}
    (hfront : ByStart front (records.filter fun r => r.start.toInt < middle))
    (hrest : ByStart rest (records.filter fun r => !decide (r.start.toInt < middle))) :
    ByStart (front ++ rest) records where
  perm := (hfront.perm.append hrest.perm).trans (List.filter_append_perm _ _)
  pairwise := by
    refine List.pairwise_append.mpr ⟨hfront.pairwise, hrest.pairwise, ?_⟩
    intro r hr s hs
    have hbefore := (List.mem_filter.mp (hfront.perm.mem_iff.mp hr)).2
    have hafter := (List.mem_filter.mp (hrest.perm.mem_iff.mp hs)).2
    rw [decide_eq_true_eq] at hbefore
    rw [← decide_not, decide_eq_true_eq] at hafter
    rw [Int64.le_iff_toInt_le]
    omega
  stable start := by
    rw [List.filter_append, hfront.stable, hrest.stable,
      filter_start_filter fun n => decide (n.toInt < middle),
      filter_start_filter fun n => !decide (n.toInt < middle)]
    by_cases h : start.toInt < middle <;> simp [h]

section Selected

variable {b c : Bounds} {records inner : List Record}
  (hrecords : selected b rows = records.map Record.toRow)

include hrecords

theorem startsIn_of_mem {record : Record} (h : record ∈ records) : record.startsIn b := by
  have hrow : record.toRow ∈ selected b rows := hrecords ▸ List.mem_map_of_mem h
  exact (List.mem_filter.mp hrow).2

/-- The records of inner bounds are among those of outer ones. -/
theorem records_of_inside (h : c.Inside b) (hinner : selected c rows = inner.map Record.toRow) :
    inner = records.filter (·.startsIn c) := by
  apply List.map_injective_iff.mpr Record.toRow_injective
  rw [← hinner, ← selected_selected h, hrecords, selected_map_toRow]

end Selected

theorem records?_append (hlower : lower ≤ middle) (hupper : middle ≤ upper) {front rest : List Record}
    (hfront : records? ⟨lower, middle⟩ rows = some front)
    (hrest : records? ⟨middle, upper⟩ rows = some rest) :
    records? ⟨lower, upper⟩ rows = some (front ++ rest) := by
  obtain ⟨frontRecords, hfrontRows, hfront⟩ := records?_eq_some_iff.mp hfront
  obtain ⟨restRecords, hrestRows, hrest⟩ := records?_eq_some_iff.mp hrest
  have hrows : ∀ r ∈ selected ⟨lower, upper⟩ rows, r.IsRecord := by
    intro r hr
    rw [← (selected_append_perm hlower hupper rows).mem_iff, hfrontRows, hrestRows,
      ← List.map_append] at hr
    exact isRecord_of_mem_map hr
  obtain ⟨records, hrecords⟩ := exists_map_toRow hrows
  have hin : ∀ r ∈ records, lower ≤ r.start.toInt ∧ r.start.toInt < upper := by
    intro r hr
    simpa [Record.startsIn] using startsIn_of_mem hrecords hr
  have hbefore : ByStart front (records.filter fun r => r.start.toInt < middle) := by
    rw [records_of_inside hrecords (inside_front hupper) hfrontRows] at hfront
    convert hfront using 1
    apply List.filter_congr
    intro r hr
    simp [Record.startsIn, (hin r hr).1]
  have hafter : ByStart rest (records.filter fun r => !decide (r.start.toInt < middle)) := by
    rw [records_of_inside hrecords (inside_rest hlower) hrestRows] at hrest
    convert hrest using 1
    apply List.filter_congr
    intro r hr
    simp [Record.startsIn, (hin r hr).2, ← decide_not]
  exact records?_eq_some_iff.mpr ⟨records, hrecords, hbefore.append hafter⟩

theorem records?_append_eq_none_iff (hlower : lower ≤ middle) (hupper : middle ≤ upper) :
    records? ⟨lower, upper⟩ rows = none ↔
      records? ⟨lower, middle⟩ rows = none ∨ records? ⟨middle, upper⟩ rows = none := by
  simp only [records?_eq_none_iff, ← (selected_append_perm hlower hupper rows).mem_iff,
    List.mem_append, or_and_right, exists_or]

/-! ## Both queries -/

/-- The list for both bounds together is that of what is listed for the one and for the other. -/
theorem ByAmount.of_append {front rest all : List Usage}
    (hlower : lower ≤ middle) (hupper : middle ≤ upper) (htimed : ∀ r ∈ rows, r.IsTimed)
    (hall : ByAmount all (lengthsIn ⟨lower, upper⟩ rows))
    (hfront : ByAmount front (lengthsIn ⟨lower, middle⟩ rows))
    (hrest : ByAmount rest (lengthsIn ⟨middle, upper⟩ rows)) :
    ByAmount all (front.map Usage.entry ++ rest.map Usage.entry) := by
  have hperm := lengthsIn_append_perm hlower hupper htimed
  apply (hall.of_perm hperm.symm).congr
  · intro path
    rw [List.map_append, List.map_append, List.mem_append, List.mem_append, map_fst_entry,
      map_fst_entry, hfront.path_mem_iff, hrest.path_mem_iff]
  · intro path
    rw [Tally.sumOf_append, Tally.sumOf_append, hfront.sumOf_eq, hrest.sumOf_eq]

/-- A range that is cut in two is found in two parts, whatever is in the table. The records of the whole
are not found exactly if those of a part are not found, and else they are the records of the first
part followed by those of the second. On rows with whole times whose sums fit, the time per path of
the whole lists the paths of both parts, each with the sum of its amounts in the two. -/
theorem queries_append (hlower : lower ≤ middle) (hupper : middle ≤ upper) (rows : List Row) :
    (records? ⟨lower, upper⟩ rows = none ↔
      records? ⟨lower, middle⟩ rows = none ∨ records? ⟨middle, upper⟩ rows = none) ∧
    (∀ front rest, records? ⟨lower, middle⟩ rows = some front →
      records? ⟨middle, upper⟩ rows = some rest →
      records? ⟨lower, upper⟩ rows = some (front ++ rest)) ∧
    ((∀ r ∈ rows, r.IsTimed) → SumsFit (lengthsIn ⟨lower, middle⟩ rows) →
      SumsFit (lengthsIn ⟨middle, upper⟩ rows) → SumsFit (lengthsIn ⟨lower, upper⟩ rows) →
      ∃ front rest all, usages? ⟨lower, middle⟩ rows = some front ∧
        usages? ⟨middle, upper⟩ rows = some rest ∧ usages? ⟨lower, upper⟩ rows = some all ∧
        ByAmount all (front.map Usage.entry ++ rest.map Usage.entry)) := by
  refine ⟨records?_append_eq_none_iff hlower hupper,
    fun front rest hfront hrest => records?_append hlower hupper hfront hrest, ?_⟩
  intro htimed hfitFront hfitRest hfitAll
  obtain ⟨front, hfront, hfrontList⟩ := exists_byAmount htimed hfitFront
  obtain ⟨rest, hrest, hrestList⟩ := exists_byAmount htimed hfitRest
  obtain ⟨all, hall, hallList⟩ := exists_byAmount htimed hfitAll
  exact ⟨front, rest, all, hfront, hrest, hall,
    hallList.of_append hlower hupper htimed hfrontList hrestList⟩

/-- Unsorted records, some of which start together, two of them where the range is cut. -/
def cutRecords : List Record :=
  [⟨50, 60, 1, "/bin/a", "first at the cut"⟩, ⟨20, 25, 2, "/bin/b", ""⟩,
    ⟨50, 45, 3, "/bin/b", "second at the cut"⟩, ⟨70, 80, 4, "/bin/c", ""⟩, ⟨20, 30, 5, "/bin/a", ""⟩,
    ⟨80, 99, 6, "/bin/c", "too late"⟩]

theorem queries_append_at_starts :
    let rows := cutRecords.map Record.toRow
    let front : List Record := [⟨20, 25, 2, "/bin/b", ""⟩, ⟨20, 30, 5, "/bin/a", ""⟩]
    let rest : List Record := [⟨50, 60, 1, "/bin/a", "first at the cut"⟩,
      ⟨50, 45, 3, "/bin/b", "second at the cut"⟩, ⟨70, 80, 4, "/bin/c", ""⟩]
    (20 : Int) ≤ 50 ∧ (50 : Int) ≤ 80 ∧
    (∀ r ∈ rows, r.IsTimed) ∧ SumsFit (lengthsIn ⟨20, 50⟩ rows) ∧
    SumsFit (lengthsIn ⟨50, 80⟩ rows) ∧ SumsFit (lengthsIn ⟨20, 80⟩ rows) ∧
    records? ⟨20, 50⟩ rows = some front ∧ records? ⟨50, 80⟩ rows = some rest ∧
    records? ⟨20, 80⟩ rows = some (front ++ rest) ∧
    ∃ front rest all, usages? ⟨20, 50⟩ rows = some front ∧ usages? ⟨50, 80⟩ rows = some rest ∧
      usages? ⟨20, 80⟩ rows = some all ∧
      ByAmount all (front.map Usage.entry ++ rest.map Usage.entry) := by
  intro rows front rest
  have htimed : ∀ r ∈ rows, r.IsTimed := by
    simp [rows, cutRecords, Record.isTimed_toRow]
  have hfit : ∀ b : Bounds, b ∈ [⟨20, 50⟩, ⟨50, 80⟩, ⟨20, 80⟩] → SumsFit (lengthsIn b rows) := by
    intro b hb
    simp only [List.mem_cons, List.not_mem_nil, or_false] at hb
    rcases hb with rfl | rfl | rfl <;>
      exact sumsFit_of_sublist (List.Sublist.refl _) (by decide +kernel)
  have hfront : records? ⟨20, 50⟩ rows = some front :=
    records?_eq_some_iff.mpr ⟨front, rfl, .refl _, by decide, fun _ => rfl⟩
  have hrest : records? ⟨50, 80⟩ rows = some rest :=
    records?_eq_some_iff.mpr ⟨rest, rfl, .refl _, by decide, fun _ => rfl⟩
  obtain ⟨-, happend, husages⟩ :=
    queries_append (show (20 : Int) ≤ 50 by decide) (show (50 : Int) ≤ 80 by decide) rows
  refine ⟨by decide, by decide, htimed, hfit _ (by simp), hfit _ (by simp), hfit _ (by simp),
    hfront, hrest, happend front rest hfront hrest, ?_⟩
  exact husages htimed (hfit _ (by simp)) (hfit _ (by simp)) (hfit _ (by simp))

end Table

end Daybook
