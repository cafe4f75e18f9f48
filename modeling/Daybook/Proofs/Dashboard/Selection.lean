import Daybook.Proofs.Dashboard.Fetches

/-! # All views follow one selection

After every step of every run the dashboard is pointed at the last accepted range: each view has its
part of the range or none, and what it shows has come from the newest of its fetches. -/

namespace Daybook

/-! ## What a dashboard shows -/

/-- The view has no range and shows nothing. -/
def View.IsIdle {ρ α : Type} (v : View ρ α) : Prop :=
  v.active = none ∧ v.state = .idle

namespace Dashboard

/-- Nothing is selected, and no view shows anything. -/
structure Blank (d : Dashboard) : Prop where
  range_eq : d.range = none
  layout_eq : d.layout = none
  idle : ∀ p, (d.views.get p).IsIdle

/-- The range is selected, and every view is pointed at its part of it: the summary at the whole range,
the timeline at a single day, and the windows of several days at the trailing parts. -/
structure Follows (d : Dashboard) (z : Zone) (r : Range) : Prop where
  range_eq : d.range = some r
  layout_eq : d.layout = some (r.layout z)
  summary : (d.views.get .summary).active = some r
  single_day : r.spanDays z = 0 →
    (d.views.get .timeline).active = some r ∧ ∀ w, (d.views.get (.window w)).IsIdle
  several_days : r.spanDays z ≠ 0 →
    (d.views.get .timeline).IsIdle ∧
    ∀ w, (∀ q, (w, q) ∈ r.trailing z → (d.views.get (.window w)).active = some q) ∧
      ((∀ q, (w, q) ∉ r.trailing z) → (d.views.get (.window w)).IsIdle)
  shown_windows : d.shownWindows.map (·.1) = (r.trailing z).map (·.1)

end Dashboard

namespace Session

variable {s : Session} {z : Zone} {selection : Option Range}

/-! ## Views and selection move together -/

/-- The selection and the ranges of the views belong together. -/
structure Pointed (z : Zone) (selection : Option Range) (s : Session) : Prop where
  zone_eq : s.dashboard.zone = z
  range_eq : s.dashboard.range = selection
  layout_eq : s.dashboard.layout = selection.map (·.layout z)
  active_eq : ∀ p, (s.view p).active = selection.bind (·.part z p)

theorem pointed_new (z : Zone) (days : ActiveDays) :
    Pointed z none { dashboard := { zone := z, days } } where
  zone_eq := rfl
  range_eq := rfl
  layout_eq := rfl
  active_eq p := by simp [view]

/-- A selection has bounds or is refused. -/
theorem select_snd (s : Session) (r : Range) :
    (s.select r).2 = (r.bounds s.dashboard.zone).map fun _ => () := by
  cases hb : r.bounds s.dashboard.zone with
  | ok b => rw [select_of_ok hb]; rfl
  | error e => rw [select_of_error hb]; rfl

/-- A pick is accepted when what it asks for is. The first pick of all has to name a first day. -/
theorem pick_snd (s : Session) (start stop : Option Instant) :
    (s.pick start stop).2 =
      match (Event.pick start stop).wish s.dashboard.range with
      | some r => (r.bounds s.dashboard.zone).map fun _ => ()
      | none => .error (.missing .start) := by
  simp only [pick, Dashboard.pick, Event.wish]
  cases s.dashboard.range with
  | some current => exact s.select_snd _
  | none =>
    cases start with
    | some start => exact s.select_snd _
    | none => rfl

namespace Pointed

theorem select (h : s.Pointed z selection) (r : Range) :
    (s.select r).1.Pointed z ((Event.select r).selection z selection) := by
  cases hb : r.bounds z with
  | error e =>
    have hselection : (Event.select r).selection z selection = selection := by
      simp [Event.selection, Event.wish, hb, Except.toBool]
    rw [hselection, select_of_error (h.zone_eq ▸ hb)]
    exact h
  | ok b =>
    rw [Event.selection_select hb, select_of_ok (h.zone_eq ▸ hb)]
    refine ⟨h.zone_eq, rfl, by rw [h.zone_eq]; rfl, ?_⟩
    intro p
    simp only [view, Panes.get_ofFn, Dashboard.active_aim, h.zone_eq]
    rfl

theorem pick (h : s.Pointed z selection) (start stop : Option Instant) :
    (s.step (.pick start stop)).Pointed z ((Event.pick start stop).selection z selection) := by
  rw [step_pick, h.range_eq]
  cases hwish : (Event.pick start stop).wish selection with
  | none => simpa [Event.selection, hwish] using h
  | some r =>
    have hselection : (Event.pick start stop).selection z selection =
        (Event.select r).selection z selection := by
      simp only [Event.selection, hwish]
      rfl
    rw [hselection]
    exact h.select r

/-- Fetches leave the selection and the ranges of the views alone. -/
theorem completion (h : s.Pointed z selection) {e : Event} (he : e.isCompletion) :
    (s.step e).Pointed z selection := by
  have of_dashboard_eq : ∀ t : Session, t.dashboard = s.dashboard → t.Pointed z selection := by
    intro t ht
    refine ⟨ht ▸ h.zone_eq, ht ▸ h.range_eq, ht ▸ h.layout_eq, ?_⟩
    intro p
    rw [view, ht]
    exact h.active_eq p
  rcases Event.isCompletion_cases he with ⟨index, rfl⟩ | ⟨id, result, rfl⟩ | ⟨index, rfl⟩
  · exact of_dashboard_eq _ (s.dashboard_launch index)
  · exact of_dashboard_eq _ (s.dashboard_answer id result)
  · simp only [step]
    cases ha : s.answers[index]? with
    | none => rwa [publish_of_none ha]
    | some a =>
      obtain ⟨f, result⟩ := a
      rw [publish_of_some ha]
      refine ⟨h.zone_eq, h.range_eq, h.layout_eq, ?_⟩
      intro p
      rw [← h.active_eq p]
      simp only [view, Dashboard.publish, Panes.get_update]
      split <;> simp

theorem step (h : s.Pointed z selection) (e : Event) :
    (s.step e).Pointed z (e.selection z selection) := by
  cases e with
  | select r => exact h.select r
  | pick start stop => exact h.pick start stop
  | launch index => exact h.completion rfl
  | answer id result => exact h.completion rfl
  | publish index => exact h.completion rfl

theorem stepAll (h : s.Pointed z selection) (events : List Event) :
    (s.stepAll events).Pointed z (events.foldl (Event.selection z) selection) := by
  induction events generalizing s selection with
  | nil => exact h
  | cons e events ih => exact ih (h.step e)

end Pointed

theorem pointed_after (z : Zone) (events : List Event) :
    (after z events).Pointed z (lastAccepted z events) :=
  (pointed_new z {}).stepAll events

/-- What was accepted has bounds. -/
theorem exists_bounds_of_lastAccepted {events : List Event} {r : Range}
    (h : lastAccepted z events = some r) : ∃ b, r.bounds z = .ok b := by
  suffices hall : ∀ selection : Option Range, (∀ r ∈ selection, ∃ b, r.bounds z = .ok b) →
      ∀ r ∈ events.foldl (Event.selection z) selection, ∃ b, r.bounds z = .ok b from
    hall none (by simp) r h
  clear h
  induction events with
  | nil => exact fun selection hs => hs
  | cons e events ih =>
    intro selection hs
    apply ih _
    intro r hr
    simp only [Event.selection] at hr
    split at hr
    · next r' hwish =>
      split at hr
      · next hok =>
        obtain rfl : r' = r := by simpa using hr
        cases hb : r'.bounds z with
        | ok b => exact ⟨b, rfl⟩
        | error e => simp [hb, Except.toBool] at hok
      · exact hs r hr
    · exact hs r hr

/-! ## After every step -/

/-- The shown windows are those that have a part of the selection. -/
theorem Pointed.map_shownWindows (h : s.Pointed z selection) :
    s.dashboard.shownWindows.map (·.1) =
      Window.catalog.filter fun w => (selection.bind (·.part z (.window w))).isSome := by
  have hactive : ∀ p, (s.dashboard.views.get p).active = selection.bind (·.part z p) := h.active_eq
  simp only [Dashboard.shownWindows, List.filter_map, List.map_map, Function.comp_def,
    List.map_id', hactive]

theorem blank_of_pointed (h : s.Pointed z none) (hc : s.Consistent z) : s.dashboard.Blank where
  range_eq := h.range_eq
  layout_eq := h.layout_eq
  idle p := ⟨h.active_eq p, hc.idle p (h.active_eq p)⟩

theorem follows_of_pointed {r : Range} (h : s.Pointed z (some r)) (hc : s.Consistent z) :
    s.dashboard.Follows z r := by
  have hactive : ∀ p, (s.dashboard.views.get p).active = r.part z p := h.active_eq
  have hidle : ∀ p, r.part z p = none → (s.dashboard.views.get p).IsIdle := fun p hp =>
    ⟨(hactive p).trans hp, hc.idle p ((hactive p).trans hp)⟩
  have hwindow : ∀ w, (∀ q, (w, q) ∉ r.trailing z) → r.part z (.window w) = none := fun w hw =>
    Option.eq_none_iff_forall_ne_some.mpr fun q hq => hw q (Range.part_window_eq_some_iff.mp hq)
  refine ⟨h.range_eq, h.layout_eq, hactive .summary, ?_, ?_, ?_⟩
  · intro hspan
    refine ⟨by rw [hactive, Range.part_timeline, if_pos hspan], fun w => hidle _ (hwindow w ?_)⟩
    simp [Range.trailing_of_spanDays_eq_zero hspan]
  · intro hspan
    refine ⟨hidle _ (by rw [Range.part_timeline, if_neg hspan]), fun w => ⟨?_, ?_⟩⟩
    · intro q hq
      rw [hactive, Range.part_window_eq_some_iff.mpr hq]
    · exact fun hw => hidle _ (hwindow w hw)
  · exact h.map_shownWindows.trans (Range.filter_part_isSome z r)

/-- After any run of selections and picks, between which fetches start, are answered and are
published in any order: nothing is shown if nothing was accepted, else every view is pointed at its
part of the last accepted range. A view with a range shows what its newest fetch has brought, which
asks for just the bounds of the range, or is loading while that fetch is on its way. A selection
without bounds is refused, and what is refused changes nothing. -/
theorem follows_selection_after (z : Zone) (events : List Event) :
    let s := after z events
    s.dashboard.zone = z ∧
    (match lastAccepted z events with
      | none => s.dashboard.Blank
      | some r => s.dashboard.Follows z r) ∧
    (∀ p r, (s.view p).active = some r →
      s.Newest ⟨p, r, (s.view p).generation⟩ ∧ s.ShowsFetch ⟨p, r, (s.view p).generation⟩) ∧
    (s.requests.map (·.fetch)).Nodup ∧
    (∀ r, (s.select r).2 = (r.bounds z).map fun _ => ()) ∧
    (∀ start stop, (s.pick start stop).2 =
      match (Event.pick start stop).wish (lastAccepted z events) with
      | some r => (r.bounds z).map fun _ => ()
      | none => .error (.missing .start)) ∧
    (∀ r e, (s.select r).2 = .error e → (s.select r).1 = s) ∧
    (∀ start stop e, (s.pick start stop).2 = .error e → (s.pick start stop).1 = s) := by
  intro s
  have hc : s.Consistent z := consistent_after z events
  have hp : s.Pointed z (lastAccepted z events) := pointed_after z events
  refine ⟨hc.zone_eq, ?_, fun p r hr => ⟨hc.newest hr, hc.shows p r hr⟩,
    hc.nodup.of_append_right, ?_, ?_, fun r e => take_of_error, fun start stop e => take_of_error⟩
  · cases hlast : lastAccepted z events with
    | none => exact blank_of_pointed (hlast ▸ hp) hc
    | some r => exact follows_of_pointed (hlast ▸ hp) hc
  · intro r
    rw [s.select_snd, hc.zone_eq]
  · intro start stop
    rw [s.pick_snd, hc.zone_eq, hp.range_eq]

end Session

end Daybook
