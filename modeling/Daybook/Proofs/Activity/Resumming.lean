import Daybook.Number.Width
import Daybook.Proofs.Activity.Path
import Daybook.Proofs.Activity.Ranking

/-! # Summing up once more

The slices of a breakdown are amounts of time as well. Their names are no paths any more and come just
once, and they are in the order in which slices belong, so summing them up changes nothing. -/

namespace Daybook

namespace Tally

variable {t : Tally} {name : String}

theorem add_of_notMem (h : name ∉ t.map (·.1)) (amount : Int) :
    t.add name amount = t ++ [(name, amount)] := by
  induction t with
  | nil => rfl
  | cons entry rest ih =>
    rw [List.map_cons, List.mem_cons, not_or] at h
    rw [add, if_neg (Ne.symm h.1), ih h.2, List.cons_append]

/-- With every name just once, there is nothing to sum up. -/
theorem ofEntries_of_nodup {entries : List (String × Int)} (h : (entries.map (·.1)).Nodup) :
    ofEntries entries = entries := by
  induction entries using List.reverseRecOn with
  | nil => rfl
  | append_singleton front e ih =>
    rw [List.map_append, List.map_singleton, List.nodup_append'] at h
    obtain ⟨hfront, -, hdisjoint⟩ := h
    have hnew : e.1 ∉ front.map (·.1) := fun hmem => hdisjoint hmem (List.mem_singleton_self _)
    rw [ofEntries_append, ih hfront, add_of_notMem hnew]

end Tally

namespace Breakdown

variable {b : Breakdown} {entries : List (String × Int)}

/-- A slice as a name and its sum. -/
def entryOf (s : Slice) : String × Int :=
  (s.name, s.total)

/-- The slices of a breakdown as amounts of time in 64 bits. -/
def usages (b : Breakdown) : List Usage :=
  b.slices.map fun s => ⟨s.name, Int64.ofInt s.total⟩

/-- All sums of the breakdown fit 64 bits. -/
def Fits (b : Breakdown) : Prop :=
  ∀ s ∈ b.slices, Within limit64 s.total

instance (b : Breakdown) : Decidable b.Fits :=
  inferInstanceAs (Decidable (∀ s ∈ b.slices, _))

theorem ofEntries_eq (entries : List (String × Int)) :
    ofEntries entries = ⟨((Tally.ofEntries (entries.map named)).mergeSort Tally.largerFirst).map
      fun entry => ⟨entry.1, entry.2⟩⟩ :=
  rfl

/-- A breakdown of no paths but names, each of which comes once, in the order of the totals. -/
theorem ofEntries_of_sorted (hname : ∀ s ∈ b.slices, Path.lastSegment s.name = s.name)
    (hnodup : (b.slices.map (·.name)).Nodup)
    (hsorted : b.slices.Pairwise fun s t => t.total ≤ s.total) :
    ofEntries (b.slices.map entryOf) = b := by
  have hnamed : (b.slices.map entryOf).map named = b.slices.map entryOf := by
    rw [List.map_map]
    refine List.map_congr_left fun s hs => ?_
    rw [Function.comp_apply, named, entryOf, hname s hs]
  have hnames : ((b.slices.map entryOf).map (·.1)).Nodup := by
    rwa [List.map_map]
  have hlarger : (b.slices.map entryOf).Pairwise fun x y => Tally.largerFirst x y := by
    rw [List.pairwise_map]
    exact hsorted.imp decide_eq_true
  calc ofEntries (b.slices.map entryOf)
    _ = ⟨(b.slices.map entryOf).map fun entry => ⟨entry.1, entry.2⟩⟩ := by
      rw [ofEntries_eq, hnamed, Tally.ofEntries_of_nodup hnames, List.mergeSort_of_pairwise hlarger]
    _ = ⟨b.slices⟩ := by
      rw [List.map_map]
      exact congrArg Breakdown.mk (List.map_id _)

/-- The name of a slice is the last segment of some path. -/
theorem lastSegment_name {s : Slice} (h : s ∈ (ofEntries entries).slices) :
    Path.lastSegment s.name = s.name := by
  obtain ⟨hname, -⟩ := ((sums_ofEntries entries).mem_iff s.name s.total).mp h
  rw [List.map_map, List.mem_map] at hname
  obtain ⟨e, -, heq⟩ := hname
  rw [← heq]
  exact Path.lastSegment_lastSegment e.1

theorem ofEntries_ofEntries (entries : List (String × Int)) :
    ofEntries ((ofEntries entries).slices.map entryOf) = ofEntries entries :=
  ofEntries_of_sorted (fun _ => lastSegment_name) (sums_ofEntries entries).nodup
    (pairwise_total_ofEntries entries)

/-- Sums that fit 64 bits are handed on as they are. -/
theorem map_entry_usages (h : b.Fits) : b.usages.map Usage.entry = b.slices.map entryOf := by
  rw [usages, List.map_map]
  refine List.map_congr_left fun s hs => ?_
  obtain ⟨hlower, hupper⟩ := h s hs
  rw [Function.comp_apply, Usage.entry, entryOf, Int64.toInt_ofInt_of_le hlower hupper]

theorem ofUsages_usages (h : (ofEntries entries).Fits) :
    ofUsages (ofEntries entries).usages = ofEntries entries := by
  rw [ofUsages, map_entry_usages h, ofEntries_ofEntries]

/-- Summing up the slices of a breakdown of records or of usages gives the same slices in the same
order, with the same tooltips, if its sums fit 64 bits. -/
theorem resums_to_itself (records : List Record) (usages : List Usage) :
    ((ofRecords records).Fits →
      ofUsages (ofRecords records).usages = ofRecords records ∧
      (ofUsages (ofRecords records).usages).slices.map Slice.tooltip =
        (ofRecords records).slices.map Slice.tooltip) ∧
    ((ofUsages usages).Fits →
      ofUsages (ofUsages usages).usages = ofUsages usages ∧
      (ofUsages (ofUsages usages).usages).slices.map Slice.tooltip =
        (ofUsages usages).slices.map Slice.tooltip) := by
  constructor
  · intro hfits
    have hsame : ofUsages (ofRecords records).usages = ofRecords records := ofUsages_usages hfits
    exact ⟨hsame, congrArg (fun b => b.slices.map Slice.tooltip) hsame⟩
  · intro hfits
    have hsame : ofUsages (ofUsages usages).usages = ofUsages usages := ofUsages_usages hfits
    exact ⟨hsame, congrArg (fun b => b.slices.map Slice.tooltip) hsame⟩

/-- Records of three names, of which two have equal totals and those of the third cancel out. -/
def tiedRecords : List Record :=
  [⟨0, 5, 1, "/opt/b", "x"⟩, ⟨5, 9, 2, "C:\\a", "y"⟩, ⟨9, 5, 3, "/bin/c", "z"⟩,
    ⟨5, 9, 3, "c", "z"⟩, ⟨10, 11, 2, "a", "y"⟩]

/-- The largest sum and the smallest one of 64 bits, the latter for paths without a last segment. -/
def extremeUsages : List Usage :=
  [⟨"/opt/a/", -9223372036854775807⟩, ⟨"/bin/b", 9223372036854775806⟩, ⟨"", -1⟩, ⟨"b", 1⟩]

theorem resums_to_itself_ties_and_extremes :
    ofRecords tiedRecords = ⟨[⟨"b", 5⟩, ⟨"a", 5⟩, ⟨"c", 0⟩]⟩ ∧
    ofUsages extremeUsages = ⟨[⟨"b", 9223372036854775807⟩, ⟨"", -9223372036854775808⟩]⟩ ∧
    (ofRecords tiedRecords).Fits ∧ (ofUsages extremeUsages).Fits ∧
    ofUsages (ofRecords tiedRecords).usages = ofRecords tiedRecords ∧
    ofUsages (ofUsages extremeUsages).usages = ofUsages extremeUsages := by
  have hrecords : ofRecords tiedRecords = ⟨[⟨"b", 5⟩, ⟨"a", 5⟩, ⟨"c", 0⟩]⟩ := by
    have htally : Tally.ofEntries ((tiedRecords.map Record.entry).map named) =
        [("b", 5), ("a", 5), ("c", 0)] := by decide
    rw [ofRecords, ofEntries_eq, htally]
    simp [List.mergeSort, Tally.largerFirst, List.MergeSort.Internal.splitInTwo]
  have husages : ofUsages extremeUsages =
      ⟨[⟨"b", 9223372036854775807⟩, ⟨"", -9223372036854775808⟩]⟩ := by
    have htally : Tally.ofEntries ((extremeUsages.map Usage.entry).map named) =
        [("", -9223372036854775808), ("b", 9223372036854775807)] := by decide
    rw [ofUsages, ofEntries_eq, htally]
    simp [List.mergeSort, Tally.largerFirst, List.MergeSort.Internal.splitInTwo]
  have hfits : (ofRecords tiedRecords).Fits ∧ (ofUsages extremeUsages).Fits := by
    rw [hrecords, husages]
    decide
  obtain ⟨hr, hu⟩ := resums_to_itself tiedRecords extremeUsages
  exact ⟨hrecords, husages, hfits.1, hfits.2, (hr hfits.1).1, (hu hfits.2).1⟩

end Breakdown

end Daybook
