import Daybook.Proofs.Activity.Breakdown

/-! # The order of a breakdown

Slices come by their totals, largest first. Those with equal totals keep the order in which their names
come first, and no amount is lost or counted twice. -/

namespace Daybook

namespace Tally

/-- Larger sums come first. -/
def largerFirst (a b : String × Int) : Bool :=
  decide (b.2 ≤ a.2)

/-- One entry has the larger sum, or the sums are equal and its name comes first in the list. -/
def Outranks (names : List String) (a b : String × Int) : Prop :=
  b.2 < a.2 ∨ a.2 = b.2 ∧ names.idxOf a.1 < names.idxOf b.1

theorem largerFirst_trans (a b c : String × Int) :
    largerFirst a b → largerFirst b c → largerFirst a c := by
  simp only [largerFirst, decide_eq_true_eq]
  omega

theorem largerFirst_total (a b : String × Int) : largerFirst a b || largerFirst b a := by
  simp only [largerFirst, Bool.or_eq_true, decide_eq_true_eq]
  omega

theorem pairwise_idxOf_ofEntries (entries : List (String × Int)) :
    (ofEntries entries).Pairwise fun a b =>
      (entries.map (·.1)).idxOf a.1 < (entries.map (·.1)).idxOf b.1 := by
  have h := pairwise_eraseDups (entries.map (·.1))
  rwa [← names_ofEntries, List.pairwise_map] at h

/-- The sort is stable, so two equal sums come in the order of the tally, which is that of the names. -/
theorem pairwise_outranks (entries : List (String × Int)) :
    ((ofEntries entries).mergeSort largerFirst).Pairwise (Outranks (entries.map (·.1))) := by
  have hsorted := List.pairwise_mergeSort largerFirst_trans largerFirst_total (ofEntries entries)
  rw [List.pairwise_iff_forall_sublist] at hsorted ⊢
  intro a b hab
  have hle : b.2 ≤ a.2 := by simpa [largerFirst] using hsorted hab
  rcases Int.lt_or_eq_of_le hle with hlt | heq
  · exact .inl hlt
  · -- Among the entries with this sum the sort changes nothing.
    have hfilter := hab.filter fun e => decide (e.2 = a.2)
    rw [filter_mergeSort largerFirst_trans largerFirst_total
      (by simp only [largerFirst, decide_eq_true_eq]; omega)] at hfilter
    simp only [heq, List.filter_cons_of_pos, decide_true, List.filter_nil] at hfilter
    have hnames := pairwise_idxOf_ofEntries entries
    rw [List.pairwise_iff_forall_sublist] at hnames
    exact .inr ⟨heq.symm, hnames (hfilter.trans List.filter_sublist)⟩

theorem total_eq_sum (t : Tally) : t.total = (t.map (·.2)).sum := by
  rw [List.sum_eq_foldr, List.foldr_map]
  rfl

theorem total_ofEntries (entries : List (String × Int)) :
    (ofEntries entries).total = (entries.map (·.2)).sum := by
  induction entries using List.reverseRecOn with
  | nil => rfl
  | append_singleton front e ih =>
    rw [ofEntries_append, total_add, ih, List.map_append, List.sum_append]
    simp

end Tally

namespace Breakdown

variable {entries : List (String × Int)}

theorem total_eq_sum (b : Breakdown) : b.total = (b.slices.map (·.total)).sum := by
  rw [List.sum_eq_foldr, List.foldr_map]
  rfl

/-- What a breakdown is to be for entries of paths and amounts. -/
structure Ranks (b : Breakdown) (entries : List (String × Int)) : Prop where
  sums : b.Sums (entries.map named)
  /-- Larger totals come first, and of equal ones that whose name comes first in the entries. -/
  pairwise : b.slices.Pairwise fun s t => t.total < s.total ∨
    s.total = t.total ∧ ((entries.map named).map (·.1)).idxOf s.name <
      ((entries.map named).map (·.1)).idxOf t.name
  tooltip : ∀ s ∈ b.slices, s.tooltip = s.name ++ " - " ++ Duration.text s.total
  total : b.total = (entries.map (·.2)).sum
  isEmpty : b.isEmpty ↔ entries = []

theorem total_ofEntries (entries : List (String × Int)) :
    (ofEntries entries).total = (entries.map (·.2)).sum := by
  have hperm := List.mergeSort_perm (Tally.ofEntries (entries.map named)) Tally.largerFirst
  calc (ofEntries entries).total
    _ = (((Tally.ofEntries (entries.map named)).mergeSort Tally.largerFirst).map (·.2)).sum := by
      rw [total_eq_sum, ofEntries, List.map_map]
      rfl
    _ = ((Tally.ofEntries (entries.map named)).map (·.2)).sum := (hperm.map _).sum_eq
    _ = (entries.map (·.2)).sum := by
      rw [← Tally.total_eq_sum, Tally.total_ofEntries, List.map_map]
      rfl

theorem isEmpty_ofEntries : (ofEntries entries).isEmpty ↔ entries = [] := by
  have hmem := (sums_ofEntries entries).mem_iff
  rw [isEmpty, List.isEmpty_iff]
  constructor
  · intro h
    rw [List.eq_nil_iff_forall_not_mem]
    intro e he
    have hslice := (hmem (named e).1 _).mpr ⟨List.mem_map_of_mem (List.mem_map_of_mem he), rfl⟩
    rw [h] at hslice
    exact List.not_mem_nil hslice
  · rintro rfl
    rw [List.eq_nil_iff_forall_not_mem]
    intro s hs
    exact List.not_mem_nil ((hmem s.name s.total).mp hs).1

theorem ranks_ofEntries (entries : List (String × Int)) : (ofEntries entries).Ranks entries where
  sums := sums_ofEntries entries
  pairwise := by
    rw [ofEntries, List.pairwise_map]
    exact Tally.pairwise_outranks (entries.map named)
  tooltip s _ := rfl
  total := total_ofEntries entries
  isEmpty := isEmpty_ofEntries

theorem pairwise_total_ofEntries (entries : List (String × Int)) :
    (ofEntries entries).slices.Pairwise fun s t => t.total ≤ s.total := by
  refine (ranks_ofEntries entries).pairwise.imp fun h => ?_
  omega

/-- Breakdowns of records and of usages have a slice for each name, with the sum of all its amounts, in
the order of their totals and then of their names. -/
theorem ranks_of_records_and_usages (records : List Record) (usages : List Usage) :
    (ofRecords records).Ranks (records.map Record.entry) ∧
      (ofUsages usages).Ranks (usages.map Usage.entry) :=
  ⟨ranks_ofEntries _, ranks_ofEntries _⟩

example : ofEntries [("/bin/b", 10), ("/bin/a", -5), ("b", -10), ("/opt/c", 0), ("\\a", 5)] =
    ⟨[⟨"b", 0⟩, ⟨"a", 0⟩, ⟨"c", 0⟩]⟩ := by
  cbv

end Breakdown

end Daybook
