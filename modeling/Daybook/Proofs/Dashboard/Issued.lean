import Daybook.Proofs.Dashboard.Selection

/-! # A selection fetches what changes

A selection issues one fetch for each view whose part of it changes, and no others. Selecting the current
range again therefore issues none, and nobody who watches the views can tell that it happened. -/

namespace Daybook

/-! ## The fetches of a selection -/

namespace Range

/-- A window has a part of a range if it is no longer than the range and has a start. -/
theorem part_window (z : Zone) (r : Range) (w : Window) :
    r.part z (.window w) = if (w.days : Int) ≤ r.spanDays z then r.tail? z w else none := by
  apply Option.ext
  intro q
  rw [part_window_eq_some_iff, mem_trailing]
  by_cases hw : (w.days : Int) ≤ r.spanDays z <;> simp [hw]

end Range

namespace Dashboard

variable {d : Dashboard} {r : Range}

/-- The fetch that a pane needs to show a range: none if its view has that range already. -/
def fetch? (d : Dashboard) (p : Pane) (q : Range) : Option PaneFetch :=
  if (d.views.get p).active = some q then none
  else some ⟨p, q, (d.views.get p).generation + 1⟩

theorem fetch?_of_active {p : Pane} {q : Range} (h : (d.views.get p).active = some q) :
    d.fetch? p q = none :=
  if_pos h

/-- Every pane that has a part of the range issues the fetch that it needs for it. -/
theorem issues_eq_filterMap (d : Dashboard) (r : Range) :
    d.issues r = Pane.all.filterMap fun p => (r.part d.zone p).bind (d.fetch? p) := by
  apply List.filterMap_congr
  intro p _
  cases hpart : r.part d.zone p with
  | none => rfl
  | some q =>
    by_cases hactive : (d.views.get p).active = some q
    · simp [aim, hpart, View.point, View.set_of_active hactive, fetch?_of_active hactive]
    · simp [aim, hpart, View.point, View.set_of_active_ne hactive, fetch?, hactive]

theorem filterMap_part_window (d : Dashboard) (r : Range) :
    (Window.catalog.filterMap fun w => (r.part d.zone (.window w)).bind (d.fetch? (.window w))) =
      (r.trailing d.zone).filterMap fun (w, q) => d.fetch? (.window w) q := by
  rw [Range.trailing, List.filterMap_filterMap, List.filterMap_filter]
  apply List.filterMap_congr
  intro w _
  rw [Range.part_window]
  by_cases hw : (w.days : Int) ≤ r.spanDays d.zone
  · cases r.tail? d.zone w <;> simp [hw]
  · simp [hw]

/-- The summary comes first, then the timeline of a single day or the windows of several days. -/
theorem issues_eq (d : Dashboard) (r : Range) :
    d.issues r = (d.fetch? .summary r).toList ++
      if r.spanDays d.zone = 0 then (d.fetch? .timeline r).toList
      else (r.trailing d.zone).filterMap fun (w, q) => d.fetch? (.window w) q := by
  have hall : d.issues r = (d.fetch? .summary r).toList ++
      (((if r.spanDays d.zone = 0 then some r else none).bind (d.fetch? .timeline)).toList ++
        (r.trailing d.zone).filterMap fun (w, q) => d.fetch? (.window w) q) := by
    rw [issues_eq_filterMap, Pane.all, List.filterMap_eq_flatMap_toList, List.flatMap_cons,
      List.flatMap_cons, ← List.filterMap_eq_flatMap_toList, List.filterMap_map,
      Range.part_timeline]
    exact congrArg (fun windows => _ ++ (_ ++ windows)) (d.filterMap_part_window r)
  rw [hall]
  by_cases hspan : r.spanDays d.zone = 0
  · simp [hspan, Range.trailing_of_spanDays_eq_zero hspan]
  · simp [hspan]

/-- The current range has no part that some view does not show. -/
theorem issues_eq_nil (h : ∀ p, (d.views.get p).active = r.part d.zone p) : d.issues r = [] := by
  rw [List.eq_nil_iff_forall_not_mem]
  intro f hf
  obtain ⟨hpart, hactive, -⟩ := mem_issues.mp hf
  exact hactive ((h f.pane).trans hpart)

end Dashboard

/-- The request that a fetch makes when it starts: none if its range has no bounds. -/
def PaneFetch.request? (z : Zone) (f : PaneFetch) : Option PaneRequest :=
  match f.range.bounds z with
  | .ok bounds => some { fetch := f, bounds }
  | .error _ => none

namespace Session

variable {s t : Session} {z : Zone} {r : Range}

/-- Every issued fetch starts once. -/
theorem requests_run (s : Session) :
    s.run.requests = s.requests ++ s.issued.filterMap (·.request? s.dashboard.zone) := by
  suffices h : ∀ (fetches : List PaneFetch) (t : Session),
      (fetches.foldl startOne t).requests =
        t.requests ++ fetches.filterMap (·.request? t.dashboard.zone) from
    h s.issued { s with issued := [] }
  intro fetches
  induction fetches with
  | nil => simp
  | cons f fetches ih =>
    intro t
    rw [List.foldl_cons, ih]
    cases hb : f.range.bounds t.dashboard.zone <;> simp [startOne, PaneFetch.request?, hb]

/-! ## Sessions that nobody can tell apart -/

/-- The sessions are alike except for views without a range. -/
structure Twins (s t : Session) : Prop where
  zone_eq : t.dashboard.zone = s.dashboard.zone
  issued_eq : t.issued = s.issued
  requests_eq : t.requests = s.requests
  answers_eq : t.answers = s.answers
  view_eq : ∀ p, t.view p = s.view p ∨ (s.view p).active = none ∧ (t.view p).active = none

namespace Twins

theorem launch (h : s.Twins t) (index : Nat) : (s.launch index).Twins (t.launch index) := by
  cases hf : s.issued[index]? with
  | none =>
    rw [launch_of_none hf, launch_of_none (h.issued_eq ▸ hf)]
    exact h
  | some f =>
    have hf' : t.issued[index]? = some f := h.issued_eq ▸ hf
    cases hb : f.range.bounds s.dashboard.zone with
    | ok b =>
      rw [launch_of_ok hf hb, launch_of_ok hf' (h.zone_eq ▸ hb), h.issued_eq, h.requests_eq]
      exact ⟨h.zone_eq, rfl, rfl, h.answers_eq, h.view_eq⟩
    | error e =>
      rw [launch_of_error hf hb, launch_of_error hf' (h.zone_eq ▸ hb), h.issued_eq, h.answers_eq]
      exact ⟨h.zone_eq, rfl, h.requests_eq, rfl, h.view_eq⟩

theorem answer (h : s.Twins t) (id : Nat) (result : Except FetchError Chart) :
    (s.answer id result).1.Twins (t.answer id result).1 := by
  by_cases hq : ∃ f b, s.requests[id]? = some ⟨f, b, none⟩
  · obtain ⟨f, b, hq⟩ := hq
    rw [answer_of_waiting hq, answer_of_waiting (h.requests_eq ▸ hq), h.requests_eq, h.answers_eq]
    exact ⟨h.zone_eq, h.issued_eq, rfl, rfl, h.view_eq⟩
  · rw [(answer_cases s id result).resolve_left hq,
      (answer_cases t id result).resolve_left (h.requests_eq ▸ hq)]
    exact h

/-- A view without a range has none after an answer either. -/
theorem publish (h : s.Twins t) (index : Nat) : (s.publish index).Twins (t.publish index) := by
  cases ha : s.answers[index]? with
  | none =>
    rw [publish_of_none ha, publish_of_none (h.answers_eq ▸ ha)]
    exact h
  | some a =>
    obtain ⟨f, result⟩ := a
    have hs := publishes_publish ha
    have ht := publishes_publish (s := t) (h.answers_eq ▸ ha)
    refine ⟨?_, ?_, ?_, ?_, ?_⟩
    · rw [ht.zone_eq, hs.zone_eq, h.zone_eq]
    · rw [ht.issued_eq, hs.issued_eq, h.issued_eq]
    · rw [ht.requests_eq, hs.requests_eq, h.requests_eq]
    · rw [publish_of_some ha, publish_of_some (h.answers_eq ▸ ha), h.answers_eq]
    · intro p
      rw [ht.active_eq, hs.active_eq]
      rcases h.view_eq p with heq | hnone
      · exact .inl (by rw [ht.view_eq, hs.view_eq, heq])
      · exact .inr hnone

theorem step (h : s.Twins t) {e : Event} (he : e.isCompletion) : (s.step e).Twins (t.step e) := by
  rcases Event.isCompletion_cases he with ⟨index, rfl⟩ | ⟨id, result, rfl⟩ | ⟨index, rfl⟩
  · exact h.launch index
  · exact h.answer id result
  · exact h.publish index

theorem stepAll (h : s.Twins t) {completions : List Event}
    (hall : ∀ e ∈ completions, e.isCompletion) :
    (s.stepAll completions).Twins (t.stepAll completions) := by
  induction completions generalizing s t with
  | nil => exact h
  | cons e completions ih =>
    exact ih (h.step (hall e List.mem_cons_self)) fun e he => hall e (List.mem_cons_of_mem _ he)

theorem active_eq (h : s.Twins t) (p : Pane) : (t.view p).active = (s.view p).active := by
  rcases h.view_eq p with heq | ⟨hnone, hnone'⟩
  · rw [heq]
  · rw [hnone, hnone']

/-- What a view shows that has no range does not depend on what it was cleared of. -/
theorem state_eq (h : s.Twins t) (hs : s.Consistent z) (ht : t.Consistent z) (p : Pane) :
    (t.view p).state = (s.view p).state := by
  rcases h.view_eq p with heq | ⟨hnone, hnone'⟩
  · rw [heq]
  · rw [hs.idle p hnone, ht.idle p hnone']

end Twins

/-! ## The current range again -/

/-- The views have their parts of the current range, so none of them needs a fetch for it. -/
theorem Pointed.issues_eq_nil (hp : s.Pointed z (some r)) : s.dashboard.issues r = [] :=
  Dashboard.issues_eq_nil fun p => hp.zone_eq ▸ hp.active_eq p

namespace Accepts

theorem view_eq_of_active (ht : s.Accepts r t) (hp : s.Pointed z (some r)) {p : Pane}
    (hactive : (s.view p).active ≠ none) : t.view p = s.view p := by
  rw [ht.view_eq]
  rcases s.dashboard.aim_cases r p with ⟨hpart, -⟩ | ⟨q, -, -, hview⟩ | ⟨q, -, -, hissue⟩
  · rw [hp.zone_eq] at hpart
    exact absurd ((hp.active_eq p).trans hpart) hactive
  · exact hview
  · simp [hp.issues_eq_nil] at hissue

theorem twins (ht : s.Accepts r t) (hp : s.Pointed z (some r)) : s.Twins t where
  zone_eq := ht.zone_eq
  issued_eq := by rw [ht.issued_eq, hp.issues_eq_nil, List.append_nil]
  requests_eq := ht.requests_eq
  answers_eq := ht.answers_eq
  view_eq p := by
    by_cases hactive : (s.view p).active = none
    · refine .inr ⟨hactive, ?_⟩
      rw [ht.view_eq, Dashboard.active_aim, hp.zone_eq]
      exact (hp.active_eq p).symm.trans hactive
    · exact .inl (ht.view_eq_of_active hp hactive)

end Accepts

/-- A fetch that goes on leaves the generation of every view alone. -/
theorem generation_step (s : Session) {e : Event} (he : e.isCompletion) (p : Pane) :
    ((s.step e).view p).generation = (s.view p).generation := by
  rcases Event.isCompletion_cases he with ⟨index, rfl⟩ | ⟨id, result, rfl⟩ | ⟨index, rfl⟩
  · simp only [step, view, dashboard_launch]
  · simp only [step, view, dashboard_answer]
  · cases ha : s.answers[index]? with
    | none => simp only [step, publish_of_none ha]
    | some a => exact (publishes_publish ha).generation_eq p

theorem generation_stepAll (s : Session) {completions : List Event}
    (hall : ∀ e ∈ completions, e.isCompletion) (p : Pane) :
    ((s.stepAll completions).view p).generation = (s.view p).generation := by
  induction completions generalizing s with
  | nil => rfl
  | cons e completions ih =>
    rw [stepAll_cons, ih (s.step e) fun e he => hall e (List.mem_cons_of_mem _ he)]
    exact s.generation_step (hall e List.mem_cons_self) p

/-- Nothing that can be seen tells `t` from `s`: there is no new fetch, the selection is the same, and no
view with a range was touched. Whatever becomes of the fetches on their way, all views have the same
ranges and show the same, and a view with a range takes the answer to its current fetch. -/
structure Unchanged (s t : Session) : Prop where
  issued_eq : t.issued = s.issued
  requests_eq : t.requests = s.requests
  range_eq : t.dashboard.range = s.dashboard.range
  layout_eq : t.dashboard.layout = s.dashboard.layout
  view_eq : ∀ p, (s.view p).active ≠ none → t.view p = s.view p
  shown_eq : ∀ completions : List Event, (∀ e ∈ completions, e.isCompletion) → ∀ p,
    ((t.stepAll completions).view p).active = ((s.stepAll completions).view p).active ∧
      ((t.stepAll completions).view p).state = ((s.stepAll completions).view p).state
  takes : ∀ completions : List Event, (∀ e ∈ completions, e.isCompletion) →
    ∀ p q index result, (s.view p).active = some q →
      (t.stepAll completions).answers[index]? = some (⟨p, q, (s.view p).generation⟩, result) →
      (((t.stepAll completions).publish index).view p).state = .ofResult result

theorem unchanged_select (hc : s.Consistent z) (hp : s.Pointed z (some r)) {b : Bounds}
    (hb : r.bounds z = .ok b) : s.Unchanged (s.select r).1 := by
  rw [← hp.zone_eq] at hb
  have ht := accepts_select hb
  have htwins := ht.twins hp
  refine ⟨htwins.issued_eq, htwins.requests_eq, ?_, ?_, fun p => ht.view_eq_of_active hp, ?_, ?_⟩
  · rw [select_of_ok hb, hp.range_eq]
  · rw [select_of_ok hb, hp.layout_eq, hp.zone_eq]
    rfl
  · intro completions hall p
    have h := htwins.stepAll hall
    exact ⟨h.active_eq p, h.state_eq (hc.stepAll _) ((hc.select r).stepAll _) p⟩
  · intro completions hall p q index result hq ha
    have hview := ht.view_eq_of_active hp (p := p) (by simp [hq])
    apply (publishes_publish ha).state_of_current
    rw [generation_stepAll _ hall, hview]

/-- A selection without bounds changes nothing. One with bounds issues a fetch for the summary if that has
another range, one for the timeline if the range is a single day that the timeline does not show, and
one for each trailing window of several days that shows something else, and no others; each issued
fetch then makes its request once. Selecting the current range again leaves all as it was. -/
theorem fetches_changed_parts_after (z : Zone) (events : List Event) (r : Range) :
    let s := after z events
    let t := (s.select r).1
    (∀ e, r.bounds z = .error e → t = s) ∧
    (∀ b, r.bounds z = .ok b →
      t.issued = s.issued ++ ((s.dashboard.fetch? .summary r).toList ++
        if r.spanDays z = 0 then (s.dashboard.fetch? .timeline r).toList
        else (r.trailing z).filterMap fun (w, q) => s.dashboard.fetch? (.window w) q) ∧
      t.requests = s.requests ∧
      t.run.requests = s.requests ++ t.issued.filterMap (·.request? z)) ∧
    (s.dashboard.range = some r → (s.select r).2 = .ok () ∧ s.Unchanged t) := by
  intro s t
  have hc : s.Consistent z := consistent_after z events
  have hp : s.Pointed z (lastAccepted z events) := pointed_after z events
  refine ⟨?_, ?_, ?_⟩
  · intro e he
    exact congrArg Prod.fst (select_of_error (hc.zone_eq.symm ▸ he))
  · intro b hb
    have ht : s.Accepts r t := accepts_select (hc.zone_eq.symm ▸ hb)
    refine ⟨?_, ht.requests_eq, ?_⟩
    · rw [ht.issued_eq, Dashboard.issues_eq, hc.zone_eq]
    · rw [requests_run, ht.requests_eq, ht.zone_eq, hc.zone_eq]
  · intro hrange
    have hlast : lastAccepted z events = some r := hp.range_eq.symm.trans hrange
    obtain ⟨b, hb⟩ := exists_bounds_of_lastAccepted hlast
    rw [hlast] at hp
    refine ⟨?_, unchanged_select hc hp hb⟩
    rw [s.select_snd, hc.zone_eq, hb]
    rfl

end Session

end Daybook
