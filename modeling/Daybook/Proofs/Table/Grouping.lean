import Daybook.Proofs.Activity.Ranking
import Daybook.Proofs.Table.Records

/-! # Grouping in the table and grouping by name

The time per path that the table sums up makes the same breakdown as the single records, however the
paths share their names. Only slices with equal totals may come in another order, because the first
path of a name need not come where its first record does. -/

namespace Daybook

namespace Breakdown

variable {b c : Breakdown} {entries : List (String × Int)}

/-- The breakdowns show the same, except that slices with equal totals may be in another order. -/
structure AgreesUpToTies (b c : Breakdown) : Prop where
  slices : (b.slices.map fun s => (s.name, s.total, s.tooltip)).Perm
    (c.slices.map fun s => (s.name, s.total, s.tooltip))
  /-- In each place there are slices of equal totals. -/
  totals : b.slices.map (·.total) = c.slices.map (·.total)
  total : b.total = c.total
  title : b.title = c.title

/-- Sums determine the slices but for their order. -/
theorem Sums.perm (hb : b.Sums entries) (hc : c.Sums entries) : b.slices.Perm c.slices := by
  have hnodup : ∀ {d : Breakdown}, d.Sums entries → d.slices.Nodup := fun hd =>
    hd.nodup.of_map
  refine (List.perm_ext_iff_of_nodup (hnodup hb) (hnodup hc)).mpr fun s => ?_
  obtain ⟨name, total⟩ := s
  rw [hb.mem_iff, hc.mem_iff]

/-- Two orders of the same slices, both with the largest total first, differ in ties at most. -/
theorem agreesUpToTies_of_perm (hperm : b.slices.Perm c.slices)
    (hb : b.slices.Pairwise fun s t => t.total ≤ s.total)
    (hc : c.slices.Pairwise fun s t => t.total ≤ s.total) : b.AgreesUpToTies c := by
  have htotals := hperm.map (·.total)
  have htotal : b.total = c.total := by
    rw [total_eq_sum, total_eq_sum, htotals.sum_eq]
  refine ⟨hperm.map _, ?_, htotal, by rw [title, title, htotal]⟩
  refine List.Perm.eq_of_pairwise (fun m n _ _ hmn hnm => Int.le_antisymm hnm hmn) ?_ ?_ htotals
  · exact List.pairwise_map.mpr hb
  · exact List.pairwise_map.mpr hc

end Breakdown

namespace Table

/-- A breakdown of what the table sums up by path and one of the records themselves agree up to ties,
whatever the records of the range, as long as no length and no running sum of a path leaves 64 bits. -/
theorem usages?_agrees_records? {b : Bounds} {records : List Record}
    (hfit : SumsFit ((records.filter (·.startsIn b)).map Record.entry)) :
    ∃ usages ordered, usages? b (records.map Record.toRow) = some usages ∧
      records? b (records.map Record.toRow) = some ordered ∧
      (Breakdown.ofUsages usages).AgreesUpToTies (Breakdown.ofRecords ordered) := by
  obtain ⟨usages, husages, hnodup, hmem, hsum⟩ := exists_usages?_map_toRow hfit
  obtain ⟨ordered, hordered, horder⟩ := exists_records? b records
  refine ⟨usages, ordered, husages, hordered, ?_⟩
  have hperm := horder.perm.map Record.entry
  -- Both breakdowns sum up the same records, the one after they were grouped by path.
  have hgrouped := Breakdown.sums_of_grouped hmem hsum hnodup
  have hsingle : (Breakdown.ofRecords ordered).Sums
      (((records.filter (·.startsIn b)).map Record.entry).map Breakdown.named) := by
    refine (Breakdown.sums_ofEntries _).congr (fun name => ?_) (fun name => ?_)
    · exact ((hperm.map Breakdown.named).map (·.1)).mem_iff
    · exact (((hperm.map Breakdown.named).filter _).map (·.2)).sum_eq
  exact Breakdown.agreesUpToTies_of_perm (hgrouped.perm hsingle)
    (Breakdown.pairwise_total_ofEntries _) (Breakdown.pairwise_total_ofEntries _)

/-- Two names with two paths each, whose lengths cancel out. -/
def cancellingRecords : List Record :=
  [⟨0, 5, 1, "/opt/a", ""⟩, ⟨10, 5, 1, "C:\\a", ""⟩, ⟨20, 30, 2, "/bin/b", ""⟩,
    ⟨40, 30, 2, "/usr/bin/b", ""⟩, ⟨90, 99, 3, "/bin/c", ""⟩]

theorem usages?_agrees_records?_cancelling :
    let b : Bounds := ⟨0, 90⟩
    SumsFit ((cancellingRecords.filter (·.startsIn b)).map Record.entry) ∧
    ∃ usages ordered, usages? b (cancellingRecords.map Record.toRow) = some usages ∧
      records? b (cancellingRecords.map Record.toRow) = some ordered ∧
      (Breakdown.ofUsages usages).AgreesUpToTies (Breakdown.ofRecords ordered) := by
  intro b
  have hfit : SumsFit ((cancellingRecords.filter (·.startsIn b)).map Record.entry) :=
    sumsFit_of_sublist (List.Sublist.refl _) (by decide +kernel)
  exact ⟨hfit, usages?_agrees_records? hfit⟩

end Table

end Daybook
