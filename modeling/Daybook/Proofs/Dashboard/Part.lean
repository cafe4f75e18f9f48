import Daybook.Dashboard.Basic
import Daybook.Proofs.Range.Trailing
import Mathlib.Data.List.Nodup

/-! # The parts of a selection

Which part of a range each pane shows, and which fetches it takes to point all views at their parts. -/

namespace Daybook

/-! ## The parts of a selection -/

namespace Range

variable {z : Zone} {r q : Range}

@[simp]
theorem part_summary (z : Zone) (r : Range) : r.part z .summary = some r :=
  rfl

theorem part_timeline (z : Zone) (r : Range) :
    r.part z .timeline = if r.spanDays z = 0 then some r else none := by
  by_cases h : r.spanDays z = 0 <;> simp [part, layout, h]

/-- A pane of a window shows the part of the range that the window has among the trailing ones. -/
theorem part_window_eq_some_iff {w : Window} :
    r.part z (.window w) = some q ↔ (w, q) ∈ r.trailing z := by
  simp only [part, layout]
  split
  · next h =>
    split at h
    · next hspan => simp [trailing_of_spanDays_eq_zero hspan]
    · simp at h
  · next parts h =>
    split at h
    · simp at h
    · obtain rfl : r.trailing z = parts := by simpa using h
      rw [Option.map_eq_some_iff]
      constructor
      · rintro ⟨⟨v, q'⟩, hfind, rfl⟩
        have hw : v = w := by simpa using List.find?_some hfind
        exact hw ▸ List.mem_of_find?_eq_some hfind
      · intro hmem
        cases hfind : (r.trailing z).find? (·.1 = w) with
        | none => exact absurd (List.find?_eq_none.mp hfind (w, q) hmem) (by simp)
        | some found =>
          obtain ⟨v, q'⟩ := found
          have hw : v = w := by simpa using List.find?_some hfind
          have hfound := mem_trailing.mp (List.mem_of_find?_eq_some hfind)
          have hgiven := mem_trailing.mp hmem
          refine ⟨_, rfl, ?_⟩
          subst hw
          exact Option.some.inj (hfound.2.symm.trans hgiven.2)

/-- The windows whose panes show a part are the trailing ones, in their order. -/
theorem filter_part_isSome (z : Zone) (r : Range) :
    Window.catalog.filter (fun w => (r.part z (.window w)).isSome) = (r.trailing z).map (·.1) := by
  rw [map_fst_trailing]
  apply List.filter_congr
  intro w _
  rw [Bool.eq_iff_iff]
  simp only [Option.isSome_iff_exists, part_window_eq_some_iff, mem_trailing, decide_eq_true_eq,
    exists_and_left]

end Range

/-! ## Issued fetches -/

namespace Dashboard

variable {d : Dashboard} {r : Range}

theorem Pane.mem_all (p : Pane) : p ∈ Pane.all := by
  cases p with
  | summary => decide
  | timeline => decide
  | window w => cases w <;> decide

/-- A selection issues a fetch for each view whose part of it changes. -/
theorem mem_issues {f : PaneFetch} :
    f ∈ d.issues r ↔ r.part d.zone f.pane = some f.range ∧
      (d.views.get f.pane).active ≠ some f.range ∧
      f.generation = (d.views.get f.pane).generation + 1 := by
  obtain ⟨pane, range, generation⟩ := f
  simp only [issues, List.mem_filterMap, Option.bind_eq_bind, Option.bind_eq_some_iff]
  constructor
  · rintro ⟨p, -, part, hpart, tag, htag, hf⟩
    obtain ⟨rfl, rfl, rfl⟩ : p = pane ∧ part = range ∧ tag = generation := by simpa using hf
    simp only [aim, hpart, View.point] at htag
    by_cases hactive : (d.views.get p).active = some part
    · simp [View.set_of_active hactive] at htag
    · rw [View.set_of_active_ne hactive] at htag
      exact ⟨hpart, hactive, (Option.some.inj htag).symm⟩
  · rintro ⟨hpart, hactive, rfl⟩
    refine ⟨pane, Pane.mem_all pane, range, hpart, _, ?_, rfl⟩
    simp [aim, hpart, View.point, View.set_of_active_ne hactive]

theorem nodup_issues (d : Dashboard) (r : Range) : (d.issues r).Nodup := by
  refine List.Nodup.filterMap ?_ (by decide)
  intro p q f hp hq
  simp only [Option.bind_eq_bind, Option.mem_def, Option.bind_eq_some_iff] at hp hq
  obtain ⟨_, -, _, -, hp⟩ := hp
  obtain ⟨_, -, _, -, hq⟩ := hq
  have hp : p = f.pane := congrArg PaneFetch.pane (Option.some.inj hp)
  have hq : q = f.pane := congrArg PaneFetch.pane (Option.some.inj hq)
  exact hp.trans hq.symm

/-- A selection clears a view that has no part of it, keeps one that shows its part already, and
starts a fetch for any other one. -/
theorem aim_cases (d : Dashboard) (r : Range) (p : Pane) :
    (r.part d.zone p = none ∧ (d.aim r p).1 = (d.views.get p).clear) ∨
    (∃ q, r.part d.zone p = some q ∧ (d.views.get p).active = some q ∧
      (d.aim r p).1 = d.views.get p) ∨
    ∃ q, r.part d.zone p = some q ∧ (d.aim r p).1 = (d.views.get p).start (some q) .loading ∧
      ⟨p, q, (d.views.get p).generation + 1⟩ ∈ d.issues r := by
  cases hpart : r.part d.zone p with
  | none => exact .inl ⟨rfl, by simp [aim, hpart, View.point]⟩
  | some q =>
    by_cases hactive : (d.views.get p).active = some q
    · refine .inr (.inl ⟨q, rfl, hactive, ?_⟩)
      simp [aim, hpart, View.point, View.set_of_active hactive]
    · refine .inr (.inr ⟨q, rfl, ?_, mem_issues.mpr ⟨hpart, hactive, rfl⟩⟩)
      simp [aim, hpart, View.point, View.set_of_active_ne hactive]

theorem active_aim (d : Dashboard) (r : Range) (p : Pane) :
    (d.aim r p).1.active = r.part d.zone p := by
  rcases d.aim_cases r p with ⟨hpart, hview⟩ | ⟨q, hpart, hactive, hview⟩ | ⟨q, hpart, hview, -⟩
  · rw [hview, hpart]
    rfl
  · rw [hview, hpart, hactive]
  · rw [hview, hpart]
    rfl

theorem generation_le_aim (d : Dashboard) (r : Range) (p : Pane) :
    (d.views.get p).generation ≤ (d.aim r p).1.generation := by
  rcases d.aim_cases r p with ⟨-, hview⟩ | ⟨q, -, -, hview⟩ | ⟨q, -, hview, -⟩ <;>
    simp [hview, View.clear, View.start]

theorem aim_of_mem_issues {f : PaneFetch} (hf : f ∈ d.issues r) :
    (d.aim r f.pane).1 = (d.views.get f.pane).start (some f.range) .loading := by
  obtain ⟨hpart, hactive, -⟩ := mem_issues.mp hf
  simp [aim, hpart, View.point, View.set_of_active_ne hactive]

end Dashboard

end Daybook
