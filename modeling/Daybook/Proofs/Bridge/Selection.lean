import Daybook.Proofs.Bridge.Answers
import Daybook.Proofs.Table.Records
import Daybook.Proofs.Table.Selected

/-! # Answers with records

The bridge answers a question for the records of a range with all of them or with none: one row in the
bounds that is no record spoils the answer, and a row outside them never does. -/

namespace Daybook.Bridge

open Http Table

variable {r : Request} {bounds : Bounds}

section Select

variable (hmethod : r.method = "GET") (hpath : r.target.path = "/select")
  (hasks : AsksFor r.target.query bounds)

include hmethod hpath hasks

theorem answer_select (b : Bridge) :
    b.answer r = (ofQuery recordsJson (b.table.bind (records? bounds))).response := by
  have hroute : Route.ofPath? r.target.path = some .select := by
    rw [hpath]
    rfl
  rw [answer_get_of_route hroute hmethod, outcome, withBounds_of_asksFor hasks]

theorem answer_select_of_isRecord {rows : List Row} {config : Config}
    (h : ∀ row ∈ rows.filter fun row => row.StartsIn bounds, row.IsRecord) :
    ∃ records ordered, (rows.filter fun row => row.StartsIn bounds) = records.map Record.toRow ∧
      ByStart ordered records ∧ answer ⟨some rows, config⟩ r =
        ⟨200, [anyOrigin], some (Envelope.success (recordsJson ordered)).text⟩ := by
  obtain ⟨records, hrecords⟩ := exists_map_toRow h
  have hordered := byStart_mergeSort records
  refine ⟨records, _, hrecords, hordered, ?_⟩
  have hfound : records? bounds rows = some _ :=
    records?_eq_some_iff.mpr ⟨records, (selected_eq_filter bounds rows).trans hrecords, hordered⟩
  rw [answer_select hmethod hpath hasks, Option.bind_some, hfound]
  rfl

theorem answer_select_of_not_isRecord {rows : List Row} {config : Config}
    (h : ∃ row ∈ rows.filter fun row => row.StartsIn bounds, ¬row.IsRecord) :
    answer ⟨some rows, config⟩ r =
      ⟨500, [anyOrigin], some (Envelope.failure "db_error").text⟩ := by
  rw [← selected_eq_filter] at h
  rw [answer_select hmethod hpath hasks, Option.bind_some, records?_eq_none_iff.mpr h]
  rfl

theorem answer_select_congr {rows others : List Row} {config : Config}
    (h : selected bounds others = selected bounds rows) :
    answer ⟨some others, config⟩ r = answer ⟨some rows, config⟩ r := by
  rw [answer_select hmethod hpath hasks, answer_select hmethod hpath hasks, Option.bind_some,
    Option.bind_some, records?, records?, h]

/-- A question for the records in bounds looks at the rows that start at a number in the bounds. If all of
them are records, they are all sent, in the order of their starts, equal starts in the order of the
table. If one of them is no record, none is sent. No other row makes a difference. -/
theorem select_all_or_nothing (rows : List Row) (config : Config) :
    let chosen := rows.filter fun row => row.StartsIn bounds
    let response := answer ⟨some rows, config⟩ r
    ((∀ row ∈ chosen, row.IsRecord) → ∃ records ordered, chosen = records.map Record.toRow ∧
      ByStart ordered records ∧
      response = ⟨200, [anyOrigin], some (Envelope.success (recordsJson ordered)).text⟩) ∧
    ((∃ row ∈ chosen, ¬row.IsRecord) →
      response = ⟨500, [anyOrigin], some (Envelope.failure "db_error").text⟩) ∧
    ∀ others : List Row, (others.filter fun row => row.StartsIn bounds) = chosen →
      answer ⟨some others, config⟩ r = response := by
  refine ⟨answer_select_of_isRecord hmethod hpath hasks,
    answer_select_of_not_isRecord hmethod hpath hasks, fun others h => ?_⟩
  apply answer_select_congr hmethod hpath hasks
  rw [selected_eq_filter, selected_eq_filter, h]

end Select

/-- Rows whose starts are no number or lie outside of 0 to 100, and none of which is a record. -/
def strayRows : List Row :=
  [⟨.null, .integer 9, .integer 1, .text "/bin/a", .text ""⟩,
    ⟨.text "50", .integer 9, .integer 1, .text "/bin/a", .text ""⟩,
    ⟨.blob [0x35, 0x30], .integer 9, .integer 1, .text "/bin/a", .text ""⟩,
    ⟨.real (.infinite true), .integer 9, .integer 1, .text "/bin/a", .text ""⟩,
    ⟨.integer 100, .null, .integer 1, .text "/bin/a", .text ""⟩,
    ⟨.real (.finite true ⟨1, -1⟩), .integer 9, .integer 1, .text "/bin/a", .text ""⟩]

/-- A row that starts at 99.5. -/
def halfRow : Row :=
  ⟨.real (.finite false ⟨199, -1⟩), .integer 100, .integer 1, .text "/bin/a", .text ""⟩

/-- Records in the bounds, two of which start together. -/
def heldRecords : List Record :=
  [⟨50, 60, 1, "/bin/a", "first"⟩, ⟨20, 30, 2, "/bin/b", ""⟩, ⟨50, 40, 3, "/bin/a", "second"⟩]

theorem select_all_or_nothing_stray_rows :
    let config : Config := {}
    let r : Request := ⟨"GET", ⟨"/select", "from=0&to=100".toList⟩⟩
    let rows := strayRows ++ heldRecords.map Record.toRow
    Request.ofLine? "/select?from=0&to=100" = some r ∧ r.method = "GET" ∧
    r.target.path = "/select" ∧ AsksFor r.target.query ⟨0, 100⟩ ∧
    (∃ ordered, ByStart ordered heldRecords ∧ answer ⟨some rows, config⟩ r =
      ⟨200, [anyOrigin], some (Envelope.success (recordsJson ordered)).text⟩) ∧
    answer ⟨some (heldRecords.map Record.toRow), config⟩ r = answer ⟨some rows, config⟩ r ∧
    answer ⟨some (halfRow :: rows), config⟩ r =
      ⟨500, [anyOrigin], some (Envelope.failure "db_error").text⟩ := by
  intro config r rows
  have hasks : AsksFor r.target.query ⟨0, 100⟩ := ⟨by decide +kernel, by decide +kernel, by decide⟩
  have hchosen : (rows.filter fun row => row.StartsIn ⟨0, 100⟩) = heldRecords.map Record.toRow := by
    rw [← selected_eq_filter]
    rfl
  have hheld : ((heldRecords.map Record.toRow).filter fun row => row.StartsIn ⟨0, 100⟩) =
      heldRecords.map Record.toRow := by
    rw [← selected_eq_filter]
    rfl
  obtain ⟨hall, -, hsame⟩ := select_all_or_nothing rfl rfl hasks rows config
  obtain ⟨-, hnone, -⟩ := select_all_or_nothing rfl rfl hasks (halfRow :: rows) config
  refine ⟨by decide +kernel, rfl, rfl, hasks, ?_, hsame _ (hheld.trans hchosen.symm), hnone ⟨halfRow, ?_, ?_⟩⟩
  · obtain ⟨records, ordered, hrecords, hordered, hanswer⟩ := hall fun row hrow => by
      rw [hchosen] at hrow
      exact isRecord_of_mem_map hrow
    obtain rfl : heldRecords = records :=
      List.map_injective_iff.mpr Record.toRow_injective (hchosen.symm.trans hrecords)
    exact ⟨ordered, hordered, hanswer⟩
  · rw [← selected_eq_filter]
    exact List.mem_cons_self
  · intro h
    obtain ⟨n, hn⟩ := h.start
    contradiction

end Daybook.Bridge
