import Daybook.Proofs.Table.Queries

/-! # The time per path

The query for the time per path lists each path of the rows in the bounds once, with the exact sum of
the lengths of its rows. The largest sum comes first, and of equal sums the path whose bytes come first.
This leaves no choice, so the list is the same in whatever order the table has its rows. -/

namespace Daybook

/-! ## The order of usages -/

/-- The path in UTF-8. -/
def Usage.bytes (u : Usage) : List UInt8 :=
  u.path.toByteArray.data.toList

/-- The usage is listed before the other one. -/
def Usage.Outranks (u v : Usage) : Prop :=
  v.amount < u.amount ∨ u.amount = v.amount ∧ u.bytes < v.bytes

instance (u v : Usage) : Decidable (u.Outranks v) :=
  inferInstanceAs (Decidable (_ ∨ _))

section Order

variable {u v w : Usage}

theorem Usage.path_eq_of_bytes_eq (h : u.bytes = v.bytes) : u.path = v.path := by
  rw [bytes, bytes, Array.toList_inj] at h
  exact String.toByteArray_inj.mp (ByteArray.ext h)

theorem Usage.Outranks.asymm (huv : u.Outranks v) (hvu : v.Outranks u) : False := by
  rcases huv with huv | ⟨huv, hbytes⟩
  · rcases hvu with hvu | ⟨hvu, -⟩
    · exact Int64.lt_asymm huv hvu
    · exact Int64.lt_irrefl (hvu ▸ huv)
  · rcases hvu with hvu | ⟨-, hbytes'⟩
    · exact Int64.lt_irrefl (huv ▸ hvu)
    · exact List.lt_asymm hbytes hbytes'

namespace Table

theorem usageLe_iff :
    usageLe u v ↔ v.amount < u.amount ∨ u.amount = v.amount ∧ u.bytes ≤ v.bytes := by
  simp [usageLe, bytesLe, Usage.bytes]

theorem usageLe_trans (u v w : Usage) (huv : usageLe u v) (hvw : usageLe v w) : usageLe u w := by
  rw [usageLe_iff] at *
  rcases huv with huv | ⟨huv, hbytes⟩
  · left
    rcases hvw with hvw | ⟨hvw, -⟩
    · exact Int64.lt_trans hvw huv
    · rwa [← hvw]
  · rw [huv]
    rcases hvw with hvw | ⟨hvw, hbytes'⟩
    · exact .inl hvw
    · exact .inr ⟨hvw, List.le_trans hbytes hbytes'⟩

theorem usageLe_total (u v : Usage) : usageLe u v || usageLe v u := by
  rw [Bool.or_eq_true, usageLe_iff, usageLe_iff]
  by_cases heq : u.amount = v.amount
  · rcases List.le_total u.bytes v.bytes with h | h
    · exact .inl (.inr ⟨heq, h⟩)
    · exact .inr (.inr ⟨heq.symm, h⟩)
  · rcases Int64.le_total u.amount v.amount with h | h
    · exact .inr (.inl (Int64.lt_of_le_of_ne h heq))
    · exact .inl (.inl (Int64.lt_of_le_of_ne h (Ne.symm heq)))

theorem outranks_of_usageLe (h : usageLe u v) (hne : u.path ≠ v.path) : u.Outranks v := by
  rcases usageLe_iff.mp h with hlt | ⟨heq, hbytes⟩
  · exact .inl hlt
  · refine .inr ⟨heq, ?_⟩
    by_contra hnot
    exact hne (Usage.path_eq_of_bytes_eq (List.le_antisymm hbytes (List.not_lt.mp hnot)))

end Table

end Order

namespace Table

variable {b : Bounds} {rows others : List Row} {r : Row} {entries : List (String × Int)}
  {us vs : List Usage}

/-! ## What the list has to be -/

/-- The usages list the paths of the entries, each once, with the sums of all their amounts. -/
structure ByAmount (usages : List Usage) (entries : List (String × Int)) : Prop where
  nodup : (usages.map (·.path)).Nodup
  path_mem_iff : ∀ path, path ∈ usages.map (·.path) ↔ path ∈ entries.map (·.1)
  amount_eq : ∀ u ∈ usages, u.amount.toInt = Tally.sumOf entries u.path
  pairwise : usages.Pairwise Usage.Outranks

theorem ByAmount.subset (hu : ByAmount us entries) (hv : ByAmount vs entries) : us ⊆ vs := by
  intro u hmem
  have hpath : u.path ∈ vs.map (·.path) := by
    rw [hv.path_mem_iff, ← hu.path_mem_iff]
    exact List.mem_map_of_mem hmem
  obtain ⟨v, hv', heq⟩ := List.mem_map.mp hpath
  have hamount : v.amount = u.amount := by
    rw [← Int64.toInt_inj, hu.amount_eq u hmem, hv.amount_eq v hv', heq]
  have hsame : v = u := by
    cases v
    cases u
    rw [Usage.mk.injEq]
    exact ⟨heq, hamount⟩
  rwa [← hsame]

theorem ByAmount.unique (hu : ByAmount us entries) (hv : ByAmount vs entries) : us = vs := by
  have hperm : us.Perm vs := by
    refine (List.perm_ext_iff_of_nodup hu.nodup.of_map hv.nodup.of_map).mpr ?_
    intro u
    exact ⟨fun h => hu.subset hv h, fun h => hv.subset hu h⟩
  refine List.Perm.eq_of_pairwise ?_ hu.pairwise hv.pairwise hperm
  intro u v _ _ huv hvu
  exact (huv.asymm hvu).elim

/-- Entries with the same paths and the same sums are listed in the same way. -/
theorem ByAmount.congr {others : List (String × Int)} (h : ByAmount us entries)
    (hpaths : ∀ path, path ∈ entries.map (·.1) ↔ path ∈ others.map (·.1))
    (hsums : ∀ path, Tally.sumOf entries path = Tally.sumOf others path) : ByAmount us others where
  nodup := h.nodup
  path_mem_iff path := by rw [h.path_mem_iff, hpaths]
  amount_eq u hu := by rw [h.amount_eq u hu, hsums]
  pairwise := h.pairwise

theorem ByAmount.of_perm {others : List (String × Int)} (h : ByAmount us entries)
    (hperm : entries.Perm others) : ByAmount us others := by
  apply h.congr
  · intro path
    exact (hperm.map _).mem_iff
  · intro path
    exact ((hperm.filter _).map _).sum_eq

theorem map_fst_entry (usages : List Usage) :
    (usages.map Usage.entry).map (·.1) = usages.map (·.path) := by
  rw [List.map_map]
  rfl

/-- The amount that is listed for a path is the sum, and none is listed where there is nothing to sum. -/
theorem ByAmount.sumOf_eq (h : ByAmount us entries) (path : String) :
    Tally.sumOf (us.map Usage.entry) path = Tally.sumOf entries path := by
  by_cases hpath : path ∈ us.map (·.path)
  · obtain ⟨u, hu, rfl⟩ := List.mem_map.mp hpath
    have hnodup := h.nodup
    rw [← map_fst_entry] at hnodup
    rw [Tally.sumOf_of_mem hnodup (List.mem_map_of_mem hu), h.amount_eq u hu]
  · have hentries : path ∉ entries.map (·.1) := by rwa [← h.path_mem_iff]
    rw [← map_fst_entry] at hpath
    rw [Tally.sumOf_of_notMem hpath, Tally.sumOf_of_notMem hentries]

/-! ## What the query finds -/

/-- The path and the length of a row with whole times that starts in the bounds. -/
def Row.lengthIn? (b : Bounds) (r : Row) : Option (String × Int) :=
  match r.start, r.stop, r.path with
  | .integer start, .integer stop, .text path =>
    if b.lower ≤ start.toInt ∧ start.toInt < b.upper then some (path, stop.toInt - start.toInt)
    else none
  | _, _, _ => none

/-- The paths and the lengths of the rows that start in the bounds. -/
def lengthsIn (b : Bounds) (rows : List Row) : List (String × Int) :=
  rows.filterMap (Row.lengthIn? b)

theorem Row.IsTimed.lengthIn?_eq (h : r.IsTimed) :
    r.lengthIn? b = if r.start.within b then some r.entry else none := by
  obtain ⟨start, hstart⟩ := h.start
  obtain ⟨stop, hstop⟩ := h.stop
  obtain ⟨path, hpath⟩ := h.path
  simp [lengthIn?, entry, hstart, hstop, hpath, Cell.within, Cell.integer?, Cell.text?]

theorem lengthsIn_eq (h : ∀ r ∈ rows, r.IsTimed) :
    lengthsIn b rows = (selected b rows).map Row.entry := by
  induction rows with
  | nil => rfl
  | cons r rows ih =>
    obtain ⟨hr, hrows⟩ := List.forall_mem_cons.mp h
    rw [lengthsIn, selected] at *
    rw [List.filterMap_cons, hr.lengthIn?_eq, ih hrows, List.filter_cons]
    by_cases hin : r.start.within b
    · rw [if_pos hin, if_pos hin, List.map_cons]
    · rw [if_neg hin, if_neg hin]

theorem exists_byAmount (htimed : ∀ r ∈ rows, r.IsTimed) (hfit : SumsFit (lengthsIn b rows)) :
    ∃ usages, usages? b rows = some usages ∧ ByAmount usages (lengthsIn b rows) := by
  have hselected : ∀ r ∈ selected b rows, r.IsTimed := fun r hr =>
    htimed r (List.mem_filter.mp hr).1
  rw [lengthsIn_eq htimed] at hfit ⊢
  obtain ⟨usages, husages, hnodup, hmem, hsum⟩ := exists_usages? hselected hfit
  rw [map_fst_entry] at hnodup
  refine ⟨usages, husages, hnodup, ?_, ?_, ?_⟩
  · intro path
    rw [← map_fst_entry, hmem]
  · intro u hu
    exact hsum u.entry (List.mem_map_of_mem hu)
  · have hsorted : usages.Pairwise fun u v => usageLe u v := by
      rw [usages?_eq hselected hfit] at husages
      rw [← Option.some.inj husages]
      exact List.pairwise_mergeSort usageLe_trans usageLe_total _
    have hne : usages.Pairwise fun u v => u.path ≠ v.path := List.pairwise_map.mp hnodup
    exact (hsorted.and hne).imp fun h => outranks_of_usageLe h.1 h.2

/-- On rows with whole times whose sums fit 64 bits, the query lists the paths of the rows in the bounds
with their sums, in the one order that there is. It finds the same list in every other order of the rows
in which the sums fit on the way as well. -/
theorem usages?_by_amount (htimed : ∀ r ∈ rows, r.IsTimed) (hfit : SumsFit (lengthsIn b rows)) :
    ∃ usages, usages? b rows = some usages ∧ ByAmount usages (lengthsIn b rows) ∧
      ∀ others, others.Perm rows → SumsFit (lengthsIn b others) →
        usages? b others = some usages := by
  obtain ⟨usages, husages, hlist⟩ := exists_byAmount htimed hfit
  refine ⟨usages, husages, hlist, fun others hperm hfit' => ?_⟩
  have htimed' : ∀ r ∈ others, r.IsTimed := fun r hr => htimed r (hperm.mem_iff.mp hr)
  obtain ⟨usages', husages', hlist'⟩ := exists_byAmount htimed' hfit'
  have hlengths : (lengthsIn b others).Perm (lengthsIn b rows) := hperm.filterMap _
  rw [husages', (hlist'.of_perm hlengths).unique hlist]

/-- A row with whole times, and with nothing else that could be sent. -/
def bareRow (start stop : Int64) (path : String) : Row :=
  ⟨.integer start, .integer stop, .null, .text path, .blob [0xFF]⟩

theorem isTimed_bareRow (start stop : Int64) (path : String) : (bareRow start stop path).IsTimed :=
  ⟨⟨_, rfl⟩, ⟨_, rfl⟩, ⟨_, rfl⟩⟩

/-- Paths with equal sums, one row that ends before it starts and one that starts too late. -/
def tiedRows : List Row :=
  [bareRow 40 50 "/bin/é", bareRow 20 15 "/bin/a", bareRow 90 99 "/bin/a", bareRow 0 10 "/bin/z",
    bareRow 10 30 "/bin/a"]

theorem usages?_by_amount_ties :
    let b : Bounds := ⟨0, 90⟩
    let usages : List Usage := [⟨"/bin/a", 15⟩, ⟨"/bin/z", 10⟩, ⟨"/bin/é", 10⟩]
    (∀ r ∈ tiedRows, r.IsTimed) ∧ SumsFit (lengthsIn b tiedRows) ∧
    SumsFit (lengthsIn b tiedRows.reverse) ∧ ByAmount usages (lengthsIn b tiedRows) ∧
    usages? b tiedRows = some usages ∧ usages? b tiedRows.reverse = some usages := by
  intro b usages
  have htimed : ∀ r ∈ tiedRows, r.IsTimed := by
    simp [tiedRows, isTimed_bareRow]
  have hfit : SumsFit (lengthsIn b tiedRows) :=
    sumsFit_of_sublist (List.Sublist.refl _) (by decide +kernel)
  have hfit' : SumsFit (lengthsIn b tiedRows.reverse) :=
    sumsFit_of_sublist (List.Sublist.refl _) (by decide +kernel)
  obtain ⟨found, hfound, hlist, hsame⟩ := usages?_by_amount htimed hfit
  have hlengths : lengthsIn b tiedRows =
      [("/bin/é", 10), ("/bin/a", -5), ("/bin/z", 10), ("/bin/a", 20)] := by decide +kernel
  have hexpected : ByAmount usages (lengthsIn b tiedRows) := by
    rw [hlengths]
    refine ⟨by decide, ?_, ?_, ?_⟩
    · intro path
      simp only [usages, List.map_cons, List.map_nil, List.mem_cons, List.not_mem_nil, or_false]
      grind
    · decide +kernel
    · decide +kernel
  obtain rfl := hlist.unique hexpected
  exact ⟨htimed, hfit, hfit', hlist, hfound, hsame _ (List.reverse_perm _) hfit'⟩

end Table

end Daybook
