import Daybook.Proofs.Activity.Breakdown
import Daybook.Table.Query
import Mathlib.Algebra.Order.BigOperators.Group.List
import Mathlib.Algebra.Order.Group.Nat

/-! # Queries on whole times

On rows with whole times and texts the query for the time per path succeeds, and the time per path is
the exact sum as long as no running sum leaves 64 bits. Records are such rows. -/

namespace Daybook

namespace Table

theorem mapM_of_eq_some {α β : Type} {f : α → Option β} {g : α → β} {l : List α}
    (h : ∀ a ∈ l, f a = some (g a)) : l.mapM f = some (l.map g) := by
  induction l with
  | nil => rfl
  | cons a l ih =>
    rw [List.forall_mem_cons] at h
    rw [List.mapM_cons, h.1, ih h.2]
    rfl

/-! ## Rows with whole times -/

namespace Row

/-- The times of the row are whole and its path is a text. -/
structure IsTimed (r : Row) : Prop where
  start : ∃ n, r.start = .integer n
  stop : ∃ n, r.stop = .integer n
  path : ∃ t, r.path = .text t

/-- The path and the exact length of a row with whole times. -/
def entry (r : Row) : String × Int :=
  (r.path.text?.getD "", (r.stop.integer?.getD 0).toInt - (r.start.integer?.getD 0).toInt)

variable {r : Row}

theorem IsTimed.text? (h : r.IsTimed) : r.path.text? = some r.entry.1 := by
  obtain ⟨t, ht⟩ := h.path
  simp [entry, ht, Cell.text?]

theorem IsTimed.length (h : r.IsTimed) (hfit : Within limit64 r.entry.2) :
    r.length = .whole (.ofInt r.entry.2) := by
  obtain ⟨a, ha⟩ := h.start
  obtain ⟨b, hb⟩ := h.stop
  simp only [entry, ha, hb, Cell.integer?, Option.getD_some] at hfit
  simp [Row.length, entry, ha, hb, Quantity.ofCell, Quantity.combine, Operation.difference, int64?,
    hfit, Cell.integer?]

end Row

/-! ## Running sums -/

/-- Neither an amount nor a running sum of the amounts of one path leaves 64 bits. -/
structure SumsFit (entries : List (String × Int)) : Prop where
  amount : ∀ e ∈ entries, Within limit64 e.2
  sum : ∀ path part, part <+: entries.filter (·.1 = path) → Within limit64 (part.map (·.2)).sum

theorem natAbs_sum_le (entries : List (String × Int)) :
    ((entries.map (·.2)).sum : Int).natAbs ≤ (entries.map fun e => e.2.natAbs).sum := by
  induction entries with
  | nil => simp
  | cons e entries ih =>
    rw [List.map_cons, List.map_cons, List.sum_cons, List.sum_cons]
    have := Int.natAbs_add_le e.2 (entries.map (·.2)).sum
    omega

/-- Amounts that are small altogether fit in every part of them. -/
theorem sumsFit_of_sublist {part entries : List (String × Int)} (hsub : part.Sublist entries)
    (h : (entries.map fun e => e.2.natAbs).sum < limit64) : SumsFit part := by
  have hpart : ∀ l : List (String × Int), l.Sublist entries → Within limit64 (l.map (·.2)).sum := by
    intro l hl
    have hle := natAbs_sum_le l
    have hmono := (hl.map fun e => e.2.natAbs).sum_le_sum fun n _ => Nat.zero_le n
    rw [Within]
    omega
  constructor
  · intro e he
    have hone := hpart [e] (List.singleton_sublist.mpr (hsub.subset he))
    simpa using hone
  · intro path front hfront
    exact hpart front (hfront.sublist.trans (List.filter_sublist.trans hsub))

namespace Quantity

theorem ofInt_eq_whole {n : Int} (h : Within limit64 n) : ofInt n = whole (.ofInt n) := by
  simp [ofInt, int64?, h]

/-- Whole numbers stay whole as long as the result fits. -/
theorem combine_whole (o : Operation) {m n : Int} (hm : Within limit64 m) (hn : Within limit64 n)
    (h : Within limit64 (o.onInts m n)) :
    combine o (whole (.ofInt m)) (whole (.ofInt n)) = whole (.ofInt (o.onInts m n)) := by
  have hm' : (Int64.ofInt m).toInt = m := Int64.toInt_ofInt_of_le hm.1 hm.2
  have hn' : (Int64.ofInt n).toInt = n := Int64.toInt_ofInt_of_le hn.1 hn.2
  simp [combine, hm', hn', int64?, h]

/-- Sums stay whole as long as they fit. -/
theorem foldl_combine {amounts : List Int} {start : Int} (h : ∀ n ∈ amounts, Within limit64 n)
    (hsum : ∀ part, part <+: amounts → Within limit64 (start + part.sum)) :
    (amounts.map fun n => whole (.ofInt n)).foldl (combine .sum) (whole (.ofInt start)) =
      whole (.ofInt (start + amounts.sum)) := by
  induction amounts generalizing start with
  | nil => simp
  | cons n amounts ih =>
    rw [List.forall_mem_cons] at h
    have hstart : Within limit64 start := by
      simpa using hsum [] (List.nil_prefix)
    have hnext : Within limit64 (start + n) := by
      simpa using hsum [n] (by simp)
    have hcombine : combine .sum (whole (.ofInt start)) (whole (.ofInt n)) =
        whole (.ofInt (start + n)) := combine_whole .sum hstart h.1 hnext
    rw [List.map_cons, List.foldl_cons, hcombine, ih h.2 fun part hpart => ?_, List.sum_cons,
      add_assoc]
    have hpart' := hsum (n :: part) (by simpa using hpart)
    rwa [List.sum_cons, ← add_assoc] at hpart'

theorem sum?_whole {amounts : List Int} (hne : amounts ≠ []) (h : ∀ n ∈ amounts, Within limit64 n)
    (hsum : ∀ part, part <+: amounts → Within limit64 part.sum) :
    sum? (amounts.map fun n => whole (.ofInt n)) = some (.ofInt amounts.sum) := by
  cases amounts with
  | nil => contradiction
  | cons n amounts =>
    have hstart : n = 0 + n := (zero_add n).symm
    have hall : ((n :: amounts).map fun n => whole (.ofInt n)).filter (· ≠ null) =
        (n :: amounts).map fun n => whole (.ofInt n) := by
      simp
    rw [sum?, hall, List.map_cons]
    simp only
    rw [foldl_combine (List.forall_mem_cons.mp h).2 fun part hpart => ?_]
    · rfl
    · simpa using hsum (n :: part) (by simpa using hpart)

end Quantity

/-! ## The time per path -/

variable {rows : List Row} {b : Bounds}

theorem filter_path {path : String} (h : ∀ r ∈ rows, r.IsTimed) :
    rows.filter (fun r => r.path.text? = some path) =
      rows.filter fun r => r.entry.1 = path := by
  apply List.filter_congr
  intro r hr
  simp [(h r hr).text?]

/-- The usage of a path that some row has. -/
theorem usage?_eq (h : ∀ r ∈ rows, r.IsTimed) (hfit : SumsFit (rows.map Row.entry)) {path : String}
    (hpath : path ∈ rows.map fun r => r.entry.1) :
    usage? rows path = some ⟨path, .ofInt (Tally.sumOf (rows.map Row.entry) path)⟩ := by
  have hlengths : (rows.filter fun r => r.entry.1 = path).map Row.length =
      (((rows.map Row.entry).filter (·.1 = path)).map (·.2)).map
        fun n => Quantity.whole (.ofInt n) := by
    rw [List.filter_map, List.map_map, List.map_map]
    apply List.map_congr_left
    intro r hr
    have hr := (List.mem_filter.mp hr).1
    exact (h r hr).length (hfit.amount _ (List.mem_map_of_mem hr))
  have hne : ((rows.map Row.entry).filter (·.1 = path)).map (·.2) ≠ [] := by
    obtain ⟨r, hr, rfl⟩ := List.mem_map.mp hpath
    refine List.ne_nil_of_mem (List.mem_map_of_mem (List.mem_filter.mpr ⟨List.mem_map_of_mem hr, ?_⟩))
    simp
  rw [usage?, filter_path h, hlengths, Quantity.sum?_whole hne]
  · rfl
  · intro n hn
    obtain ⟨e, he, rfl⟩ := List.mem_map.mp hn
    exact hfit.amount e (List.mem_filter.mp he).1
  · intro part hpart
    rw [List.prefix_iff_eq_take.mp hpart, ← List.map_take]
    exact hfit.sum path _ (List.take_prefix _ _)

/-- The time per path of a range: every path that occurs in it, once, with its exact sum. -/
theorem usages?_eq (h : ∀ r ∈ selected b rows, r.IsTimed)
    (hfit : SumsFit ((selected b rows).map Row.entry)) :
    usages? b rows = some ((((selected b rows).map fun r => r.entry.1).eraseDups.map fun path =>
      (⟨path, .ofInt (Tally.sumOf ((selected b rows).map Row.entry) path)⟩ : Usage)).mergeSort
        usageLe) := by
  have hpaths : (selected b rows).mapM (fun r => r.path.text?) =
      some ((selected b rows).map fun r => r.entry.1) :=
    mapM_of_eq_some fun r hr => (h r hr).text?
  have husages := mapM_of_eq_some (f := usage? (selected b rows)) fun path hpath =>
    usage?_eq h hfit (List.mem_eraseDups.mp hpath)
  simp only [usages?, hpaths, Option.bind_eq_bind, Option.bind_some, husages]
  rfl

theorem SumsFit.sumOf {entries : List (String × Int)} (h : SumsFit entries) (path : String) :
    (Int64.ofInt (Tally.sumOf entries path)).toInt = Tally.sumOf entries path := by
  have hall : Within limit64 (Tally.sumOf entries path) := h.sum path _ (List.prefix_refl _)
  exact Int64.toInt_ofInt_of_le hall.1 hall.2

/-- The usages of a range are its rows grouped by path: no path is lost and none comes twice. -/
theorem exists_usages? (h : ∀ r ∈ selected b rows, r.IsTimed)
    (hfit : SumsFit ((selected b rows).map Row.entry)) :
    ∃ usages, usages? b rows = some usages ∧
      ((usages.map Usage.entry).map (·.1)).Nodup ∧
      (∀ path, path ∈ (usages.map Usage.entry).map (·.1) ↔
        path ∈ ((selected b rows).map Row.entry).map (·.1)) ∧
      ∀ e ∈ usages.map Usage.entry, e.2 = Tally.sumOf ((selected b rows).map Row.entry) e.1 := by
  let entries := (selected b rows).map Row.entry
  let usageOf (path : String) : Usage := ⟨path, .ofInt (Tally.sumOf entries path)⟩
  have hperm := List.mergeSort_perm
    (((selected b rows).map fun r => r.entry.1).eraseDups.map usageOf) usageLe
  have hentries := hperm.map Usage.entry
  have hnames : ((((selected b rows).map fun r => r.entry.1).eraseDups.map usageOf).map
      Usage.entry).map (·.1) = ((selected b rows).map fun r => r.entry.1).eraseDups := by
    simp [usageOf, Usage.entry, Function.comp_def]
  refine ⟨_, usages?_eq h hfit, ?_, ?_, ?_⟩
  · rw [(hentries.map _).nodup_iff, hnames]
    exact nodup_eraseDups _
  · intro path
    rw [(hentries.map _).mem_iff, hnames, List.mem_eraseDups, List.map_map]
    rfl
  · intro e he
    rw [hentries.mem_iff, List.map_map] at he
    obtain ⟨path, -, rfl⟩ := List.mem_map.mp he
    exact hfit.sumOf path

end Table

open Table

/-- A record as a row of the table. -/
def Record.toRow (r : Record) : Row :=
  ⟨.integer r.start, .integer r.stop, .integer r.pid, .text r.path, .text r.title⟩

/-- The record starts in the bounds. -/
def Record.startsIn (b : Bounds) (r : Record) : Bool :=
  b.lower ≤ r.start.toInt && r.start.toInt < b.upper

theorem Record.isTimed_toRow (r : Record) : r.toRow.IsTimed :=
  ⟨⟨_, rfl⟩, ⟨_, rfl⟩, ⟨_, rfl⟩⟩

namespace Table

variable {b : Bounds} {records : List Record}

theorem selected_map_toRow (b : Bounds) (records : List Record) :
    selected b (records.map Record.toRow) = (records.filter (·.startsIn b)).map Record.toRow := by
  rw [selected, List.filter_map]
  rfl

theorem entries_map_toRow (records : List Record) :
    (records.map Record.toRow).map Row.entry = records.map Record.entry := by
  rw [List.map_map]
  rfl

/-- The usages of a range of records are those records grouped by path. -/
theorem exists_usages?_map_toRow (hfit : SumsFit ((records.filter (·.startsIn b)).map Record.entry)) :
    ∃ usages, usages? b (records.map Record.toRow) = some usages ∧
      ((usages.map Usage.entry).map (·.1)).Nodup ∧
      (∀ path, path ∈ (usages.map Usage.entry).map (·.1) ↔
        path ∈ ((records.filter (·.startsIn b)).map Record.entry).map (·.1)) ∧
      ∀ e ∈ usages.map Usage.entry,
        e.2 = Tally.sumOf ((records.filter (·.startsIn b)).map Record.entry) e.1 := by
  have hselected := selected_map_toRow b records
  have htimed : ∀ r ∈ selected b (records.map Record.toRow), r.IsTimed := by
    intro r hr
    rw [hselected] at hr
    obtain ⟨record, -, rfl⟩ := List.mem_map.mp hr
    exact record.isTimed_toRow
  have hentries : (selected b (records.map Record.toRow)).map Row.entry =
      (records.filter (·.startsIn b)).map Record.entry := by
    rw [hselected, entries_map_toRow]
  rw [← hentries] at hfit ⊢
  exact exists_usages? htimed hfit

end Table

end Daybook
