import Daybook.Proofs.Table.Queries

/-! # The records of a range

The query for the records of a range finds all of them or fails, and it fails exactly if a row in the
bounds is no record. What it finds is the only list that has these records by their starts, equal
starts in the order of the table. -/

namespace Daybook

theorem Record.record?_toRow (r : Record) : r.toRow.record? = some r :=
  rfl

theorem Record.toRow_injective : Function.Injective toRow := by
  intro r s h
  rw [← Option.some.injEq, ← r.record?_toRow, ← s.record?_toRow, h]

namespace Table

variable {b : Bounds} {rows : List Row} {r : Row} {records ordered : List Record}

/-! ## Rows that are records -/

theorem Cell.integer?_eq_some_iff {cell : Cell} {n : Int64} :
    cell.integer? = some n ↔ cell = .integer n := by
  cases cell <;> simp [integer?]

theorem Cell.text?_eq_some_iff {cell : Cell} {t : String} :
    cell.text? = some t ↔ cell = .text t := by
  cases cell <;> simp [text?]

namespace Row

/-- The times and the process are whole numbers, the path and the title are texts. -/
structure IsRecord (r : Row) : Prop where
  start : ∃ n, r.start = .integer n
  stop : ∃ n, r.stop = .integer n
  pid : ∃ n, r.pid = .integer n
  path : ∃ t, r.path = .text t
  title : ∃ t, r.title = .text t

theorem record?_eq_some_iff {record : Record} : r.record? = some record ↔ r = record.toRow := by
  obtain ⟨start, stop, pid, path, title⟩ := r
  obtain ⟨start', stop', pid', path', title'⟩ := record
  simp [record?, Record.toRow, Option.bind_eq_some_iff, Cell.integer?_eq_some_iff,
    Cell.text?_eq_some_iff]

theorem isRecord_iff : r.IsRecord ↔ ∃ record : Record, r = record.toRow := by
  constructor
  · intro h
    obtain ⟨start, hstart⟩ := h.start
    obtain ⟨stop, hstop⟩ := h.stop
    obtain ⟨pid, hpid⟩ := h.pid
    obtain ⟨path, hpath⟩ := h.path
    obtain ⟨title, htitle⟩ := h.title
    refine ⟨⟨start, stop, pid, path, title⟩, ?_⟩
    rw [Record.toRow, ← hstart, ← hstop, ← hpid, ← hpath, ← htitle]
  · intro h
    obtain ⟨record, hrecord⟩ := h
    rw [hrecord]
    exact ⟨⟨_, rfl⟩, ⟨_, rfl⟩, ⟨_, rfl⟩, ⟨_, rfl⟩, ⟨_, rfl⟩⟩

end Row

theorem isRecord_of_mem_map (h : r ∈ records.map Record.toRow) : r.IsRecord := by
  obtain ⟨record, -, hrecord⟩ := List.mem_map.mp h
  exact Row.isRecord_iff.mpr ⟨record, hrecord.symm⟩

theorem mapM_record?_eq_some_iff :
    rows.mapM Row.record? = some records ↔ rows = records.map Record.toRow := by
  induction rows generalizing records with
  | nil => simp [eq_comm]
  | cons r rows ih =>
    simp only [List.mapM_cons, Option.bind_eq_bind, Option.bind_eq_some_iff, Option.pure_def,
      Option.some.injEq, Row.record?_eq_some_iff, ih]
    constructor
    · rintro ⟨record, rfl, rest, rfl, rfl⟩
      rfl
    · intro h
      obtain ⟨record, rest, rfl, hrecord, hrest⟩ := List.map_eq_cons_iff.mp h.symm
      exact ⟨record, hrecord.symm, rest, hrest.symm, rfl⟩

theorem exists_map_toRow (h : ∀ r ∈ rows, r.IsRecord) :
    ∃ records : List Record, rows = records.map Record.toRow := by
  induction rows with
  | nil => exact ⟨[], rfl⟩
  | cons r rows ih =>
    obtain ⟨hr, hrows⟩ := List.forall_mem_cons.mp h
    obtain ⟨record, rfl⟩ := Row.isRecord_iff.mp hr
    obtain ⟨records, rfl⟩ := ih hrows
    exact ⟨record :: records, rfl⟩

/-! ## The one order of the records -/

/-- The records sorted by their starts; those with one start keep their order. -/
structure ByStart (ordered records : List Record) : Prop where
  perm : ordered.Perm records
  pairwise : ordered.Pairwise (·.start ≤ ·.start)
  stable : ∀ start, ordered.filter (·.start = start) = records.filter (·.start = start)

theorem byStart_mergeSort (records : List Record) :
    ByStart (records.mergeSort fun r s => decide (r.start ≤ s.start)) records := by
  have htrans : ∀ r s t : Record, decide (r.start ≤ s.start) → decide (s.start ≤ t.start) →
      decide (r.start ≤ t.start) := by
    intro r s t
    simpa using Int64.le_trans
  have htotal : ∀ r s : Record, decide (r.start ≤ s.start) || decide (s.start ≤ r.start) := by
    intro r s
    simpa using Int64.le_total r.start s.start
  refine ⟨List.mergeSort_perm records _, ?_, fun start => ?_⟩
  · simpa using List.pairwise_mergeSort htrans htotal records
  · refine filter_mergeSort htrans htotal (fun r s hr hs => ?_) records
    rw [decide_eq_true_eq] at hr hs ⊢
    rw [hr, hs]
    exact Int64.le_refl start

section Unique

variable {xs ys : List Record}

theorem mem_iff_of_filter_start_eq
    (h : ∀ start, xs.filter (·.start = start) = ys.filter (·.start = start)) (record : Record) :
    record ∈ xs ↔ record ∈ ys := by
  have hmem : record ∈ xs.filter (·.start = record.start) ↔
      record ∈ ys.filter (·.start = record.start) := by
    rw [h record.start]
  simpa using hmem

theorem start_le_of_mem_cons {x y : Record} (h : (x :: xs).Pairwise (·.start ≤ ·.start))
    (hy : y ∈ x :: xs) : x.start ≤ y.start := by
  rcases List.mem_cons.mp hy with heq | hy
  · rw [heq]
    exact Int64.le_refl _
  · exact List.rel_of_pairwise_cons h hy

/-- Lists by start are equal if they have the same records for each start, in the same order. -/
theorem eq_of_filter_start_eq (hx : xs.Pairwise (·.start ≤ ·.start))
    (hy : ys.Pairwise (·.start ≤ ·.start))
    (h : ∀ start, xs.filter (·.start = start) = ys.filter (·.start = start)) : xs = ys := by
  induction xs generalizing ys with
  | nil =>
    refine (List.eq_nil_iff_forall_not_mem.mpr ?_).symm
    intro y hy
    exact List.not_mem_nil ((mem_iff_of_filter_start_eq h y).mpr hy)
  | cons x xs ih =>
    cases ys with
    | nil =>
      have hx := (mem_iff_of_filter_start_eq h x).mp List.mem_cons_self
      exact absurd hx List.not_mem_nil
    | cons y ys =>
      -- Each head is in the other list, so neither of them starts later.
      have hstart : x.start = y.start := by
        apply Int64.le_antisymm
        · exact start_le_of_mem_cons hx ((mem_iff_of_filter_start_eq h y).mpr List.mem_cons_self)
        · exact start_le_of_mem_cons hy ((mem_iff_of_filter_start_eq h x).mp List.mem_cons_self)
      have hhead := h x.start
      rw [List.filter_cons_of_pos (by simp), List.filter_cons_of_pos (by simp [hstart])] at hhead
      obtain ⟨rfl, -⟩ := List.cons.inj hhead
      apply congrArg (List.cons x)
      apply ih hx.tail hy.tail
      intro start
      have hall := h start
      by_cases hs : x.start = start
      · rw [List.filter_cons_of_pos (by simp [hs]), List.filter_cons_of_pos (by simp [hs])] at hall
        exact (List.cons.inj hall).2
      · rwa [List.filter_cons_of_neg (by simp [hs]), List.filter_cons_of_neg (by simp [hs])] at hall

end Unique

theorem ByStart.unique {xs ys : List Record} (hx : ByStart xs records) (hy : ByStart ys records) :
    xs = ys := by
  apply eq_of_filter_start_eq hx.pairwise hy.pairwise
  intro start
  rw [hx.stable, hy.stable]

/-! ## What the query finds -/

theorem records?_eq_some_iff : records? b rows = some ordered ↔
    ∃ records, selected b rows = records.map Record.toRow ∧ ByStart ordered records := by
  simp only [records?, Option.bind_eq_bind, Option.bind_eq_some_iff, Option.pure_def,
    Option.some.injEq, mapM_record?_eq_some_iff]
  apply exists_congr
  intro records
  apply and_congr_right
  intro _
  constructor
  · intro h
    rw [← h]
    exact byStart_mergeSort records
  · intro h
    exact (byStart_mergeSort records).unique h

theorem records?_eq_none_iff :
    records? b rows = none ↔ ∃ r ∈ selected b rows, ¬r.IsRecord := by
  constructor
  · intro hnone
    by_contra h
    simp only [not_exists, not_and, not_not] at h
    obtain ⟨records, hrecords⟩ := exists_map_toRow h
    have hsome : records? b rows = some _ :=
      records?_eq_some_iff.mpr ⟨records, hrecords, byStart_mergeSort records⟩
    rw [hnone] at hsome
    contradiction
  · intro h
    obtain ⟨r, hr, hbad⟩ := h
    rw [Option.eq_none_iff_forall_ne_some]
    intro ordered hsome
    obtain ⟨records, hrecords, -⟩ := records?_eq_some_iff.mp hsome
    rw [hrecords] at hr
    exact hbad (isRecord_of_mem_map hr)

theorem exists_records? (b : Bounds) (records : List Record) :
    ∃ ordered, records? b (records.map Record.toRow) = some ordered ∧
      ByStart ordered (records.filter (·.startsIn b)) := by
  have hordered := byStart_mergeSort (records.filter (·.startsIn b))
  exact ⟨_, records?_eq_some_iff.mpr ⟨_, selected_map_toRow b records, hordered⟩, hordered⟩

end Table

end Daybook
