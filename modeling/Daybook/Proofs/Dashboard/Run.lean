import Daybook.Dashboard.Session

/-! # Runs of a dashboard

Selections and picks, between which fetches start, are answered and reach their views one by one and
in any order. Starting all fetches and delivering all answers together is one of these orders. -/

namespace Daybook

namespace Session

/-! ## Events -/

/-- What happens to a session. Fetches that have not started and answers that have not reached their
views are named by their places. -/
inductive Event
  | select (range : Range)
  | pick (start stop : Option Instant)
  | launch (index : Nat)
  | answer (id : Nat) (result : Except FetchError Chart)
  | publish (index : Nat)

/-- The event is a step of some fetch. -/
def Event.isCompletion : Event → Bool
  | select _ => false
  | pick _ _ => false
  | launch _ => true
  | answer _ _ => true
  | publish _ => true

theorem Event.isCompletion_cases {e : Event} (h : e.isCompletion) :
    (∃ index, e = .launch index) ∨ (∃ id result, e = .answer id result) ∨
      ∃ index, e = .publish index := by
  cases e with
  | select range => simp [isCompletion] at h
  | pick start stop => simp [isCompletion] at h
  | launch index => exact .inl ⟨index, rfl⟩
  | answer id result => exact .inr (.inl ⟨id, result, rfl⟩)
  | publish index => exact .inr (.inr ⟨index, rfl⟩)

/-- The range that an event asks for, while a range is selected or none is. -/
def Event.wish (current : Option Range) : Event → Option Range
  | select range => some range
  | pick start stop =>
    match current, start with
    | some current, start => some (current.pick start stop)
    | none, some start => some ((Range.day start).pick (some start) stop)
    | none, none => none
  | launch _ => none
  | answer _ _ => none
  | publish _ => none

/-- The selection after an event: what it asks for, if that has bounds. -/
def Event.selection (z : Zone) (current : Option Range) (e : Event) : Option Range :=
  match e.wish current with
  | some range => if (range.bounds z).toBool then some range else current
  | none => current

theorem Event.selection_select {z : Zone} {r : Range} {b : Bounds} (hb : r.bounds z = .ok b)
    (current : Option Range) : (select r).selection z current = some r := by
  simp [selection, wish, hb, Except.toBool]

/-- The last range of a run that was asked for and accepted. -/
def lastAccepted (z : Zone) (events : List Event) : Option Range :=
  events.foldl (Event.selection z) none

/-- Starts one of the issued fetches. -/
def launch (s : Session) (index : Nat) : Session :=
  match s.issued[index]? with
  | some fetch => { s with issued := s.issued.eraseIdx index }.startOne fetch
  | none => s

/-- Lets one answer reach its view. -/
def publish (s : Session) (index : Nat) : Session :=
  match s.answers[index]? with
  | some (fetch, result) =>
    { s with
      dashboard := s.dashboard.publish fetch result
      answers := s.answers.eraseIdx index }
  | none => s

def step (s : Session) : Event → Session
  | .select range => (s.select range).1
  | .pick start stop => (s.pick start stop).1
  | .launch index => s.launch index
  | .answer id result => (s.answer id result).1
  | .publish index => s.publish index

/-- A fetch that starts leaves the dashboard alone. -/
theorem dashboard_launch (s : Session) (index : Nat) : (s.launch index).dashboard = s.dashboard := by
  simp only [launch]
  split
  · simp only [startOne]
    split <;> rfl
  · rfl

/-- An answer leaves the dashboard alone until it is published. -/
theorem dashboard_answer (s : Session) (id : Nat) (result : Except FetchError Chart) :
    (s.answer id result).1.dashboard = s.dashboard := by
  simp only [answer]
  split <;> rfl

/-- A session after events. -/
def stepAll (s : Session) (events : List Event) : Session :=
  events.foldl step s

/-- A new session in a zone after a run of events. -/
def after (z : Zone) (events : List Event) : Session :=
  stepAll { dashboard := { zone := z } } events

@[simp]
theorem stepAll_nil (s : Session) : s.stepAll [] = s :=
  rfl

@[simp]
theorem stepAll_cons (s : Session) (e : Event) (events : List Event) :
    s.stepAll (e :: events) = (s.step e).stepAll events :=
  rfl

theorem stepAll_append (s : Session) (first rest : List Event) :
    s.stepAll (first ++ rest) = (s.stepAll first).stepAll rest :=
  List.foldl_append

theorem after_append (z : Zone) (first rest : List Event) :
    after z (first ++ rest) = (after z first).stepAll rest :=
  stepAll_append _ first rest

/-- What every step keeps holds after any run. -/
theorem stepAll_induction {P : Session → Prop} (hstep : ∀ s e, P s → P (s.step e)) {s : Session}
    (h : P s) (events : List Event) : P (s.stepAll events) := by
  induction events generalizing s with
  | nil => exact h
  | cons e events ih => exact ih (hstep s e h)

/-! ## Fetches that start and answers that arrive together -/

/-- Delivering all answers is publishing the first one as often as there are answers. -/
theorem deliver_eq_stepAll (s : Session) :
    s.deliver = s.stepAll (List.replicate s.answers.length (.publish 0)) := by
  obtain ⟨dashboard, issued, requests, answers⟩ := s
  induction answers generalizing dashboard with
  | nil => rfl
  | cons a answers ih =>
    obtain ⟨fetch, result⟩ := a
    simp only [List.length_cons, List.replicate_succ, stepAll_cons]
    have hstep : step ⟨dashboard, issued, requests, (fetch, result) :: answers⟩ (.publish 0) =
        ⟨dashboard.publish fetch result, issued, requests, answers⟩ := rfl
    rw [hstep]
    exact ih (dashboard.publish fetch result)

/-- Starting all issued fetches is launching the first one as often as there are fetches. -/
theorem foldl_startOne_eq_stepAll (s : Session) :
    s.issued.foldl startOne { s with issued := [] } =
      s.stepAll (List.replicate s.issued.length (.launch 0)) := by
  obtain ⟨dashboard, issued, requests, answers⟩ := s
  induction issued generalizing requests answers with
  | nil => rfl
  | cons fetch issued ih =>
    simp only [List.length_cons, List.replicate_succ, stepAll_cons, List.foldl_cons] at ih ⊢
    have hstep : step ⟨dashboard, fetch :: issued, requests, answers⟩ (.launch 0) =
        startOne ⟨dashboard, issued, requests, answers⟩ fetch := rfl
    rw [hstep]
    simp only [startOne]
    split
    · exact ih _ answers
    · exact ih requests _

/-- A run of the scheduler is a run of single steps. -/
theorem run_eq_stepAll (s : Session) :
    ∃ events, (∀ e ∈ events, e.isCompletion) ∧ s.run = s.stepAll events := by
  refine ⟨List.replicate s.issued.length (.launch 0) ++
    List.replicate (s.issued.foldl startOne { s with issued := [] }).answers.length (.publish 0),
    ?_, ?_⟩
  · intro e he
    rcases List.mem_append.mp he with he | he <;>
    · rw [(List.mem_replicate.mp he).2]
      rfl
  · rw [stepAll_append, ← foldl_startOne_eq_stepAll, ← deliver_eq_stepAll]
    rfl

end Session

/-! ## Selections that are accepted or refused -/

namespace Dashboard

variable {d : Dashboard} {r : Range}

theorem select_of_ok {b : Bounds} (h : r.bounds d.zone = .ok b) :
    d.select r = .ok ({ d with
      range := some r
      layout := some (r.layout d.zone)
      views := .ofFn fun p => (d.aim r p).1 }, d.issues r) := by
  simp only [select, h]
  rfl

theorem select_of_error {e : RangeError} (h : r.bounds d.zone = .error e) :
    d.select r = .error e := by
  simp only [select, h]
  rfl

end Dashboard

namespace Session

theorem select_of_error {s : Session} {r : Range} {e : RangeError}
    (h : r.bounds s.dashboard.zone = .error e) : s.select r = (s, .error e) := by
  rw [select, Dashboard.select_of_error h]
  rfl

/-- What is refused leaves the whole session as it is. -/
theorem take_of_error {s : Session} {outcome : Except RangeError (Dashboard × List PaneFetch)}
    {e : RangeError} (h : (s.take outcome).2 = .error e) : (s.take outcome).1 = s := by
  cases outcome with
  | ok _ => simp [take] at h
  | error _ => rfl

/-- A pick is the selection of what it asks for, if it asks for anything. -/
theorem step_pick (s : Session) (start stop : Option Instant) :
    s.step (.pick start stop) =
      match (Event.pick start stop).wish s.dashboard.range with
      | some range => (s.select range).1
      | none => s := by
  simp only [step, pick, Dashboard.pick, Event.wish]
  cases s.dashboard.range with
  | some current => rfl
  | none => cases start <;> rfl

end Session

end Daybook
