import Daybook.Proofs.Dashboard.Selection
import Daybook.Viewer.Program

/-! # The past leaves no trace

Once all fetches of a session have ended, and a source has answered each of them by its query alone,
every view shows what the source has for its part of the selection. Sessions with the same selection
then show the same, whatever came before. -/

namespace Daybook

/-! ## What a source has for a selection -/

/-- What comes of a fetch for a range when a source answers it. -/
def Source.reply (source : Source) (z : Zone) (p : Pane) (r : Range) : Except FetchError Chart :=
  match r.bounds z with
  | .ok b => source.chart b p
  | .error e => .error (.range e)

/-- What a pane shows of a selection in the end. -/
def Source.shown (source : Source) (z : Zone) (r : Range) (p : Pane) : ViewState Chart :=
  match r.part z p with
  | some q => .ofResult (source.reply z p q)
  | none => .idle

namespace Session

variable {s : Session} {z : Zone} {source : Source} {r : Range}

/-- All fetches have started, all requests have been answered, and all answers have been published. -/
structure Settled (s : Session) : Prop where
  issued_eq : s.issued = []
  answers_eq : s.answers = []
  answered : ∀ q ∈ s.requests, q.reply ≠ none

/-- Whatever was answered was answered by the source. -/
def AnsweredBy (source : Source) (s : Session) : Prop :=
  ∀ q ∈ s.requests, ∀ result, q.reply = some result →
    result = source.chart q.bounds q.fetch.pane

theorem settled_iff : s.Settled ↔
    s.issued.isEmpty ∧ s.answers.isEmpty ∧ ∀ q ∈ s.requests, q.reply.isSome := by
  simp only [List.isEmpty_iff, Option.isSome_iff_ne_none]
  exact ⟨fun h => ⟨h.issued_eq, h.answers_eq, h.answered⟩, fun h => ⟨h.1, h.2.1, h.2.2⟩⟩

instance (s : Session) : Decidable s.Settled :=
  decidable_of_iff _ settled_iff.symm

theorem answeredBy_iff : s.AnsweredBy source ↔
    ∀ q ∈ s.requests, q.reply = none ∨ q.reply = some (source.chart q.bounds q.fetch.pane) := by
  apply forall₂_congr
  intro q _
  cases q.reply <;> simp

instance (source : Source) (s : Session) : Decidable (s.AnsweredBy source) :=
  decidable_of_iff _ answeredBy_iff.symm

theorem Settled.not_pending (h : s.Settled) (f : PaneFetch) : ¬s.Pending f := by
  rintro (hf | ⟨q, hq, -, hreply⟩ | ⟨result, hf⟩)
  · simp [h.issued_eq] at hf
  · exact h.answered q hq hreply
  · simp [h.answers_eq] at hf

theorem Ended.eq_reply {f : PaneFetch} {result : Except FetchError Chart} (h : s.Ended f result)
    (ha : s.AnsweredBy source) : result = source.reply s.dashboard.zone f.pane f.range := by
  rcases h with ⟨e, he, rfl⟩ | ⟨q, hq, rfl, hb, hreply⟩
  · simp [Source.reply, he]
  · rw [ha q hq result hreply, Source.reply, hb]

/-- Nothing but the selection and the source decides what a settled session shows. -/
theorem state_of_settled (hc : s.Consistent z) (hp : s.Pointed z (some r)) (hs : s.Settled)
    (ha : s.AnsweredBy source) (p : Pane) : (s.view p).state = source.shown z r p := by
  have hactive : (s.view p).active = r.part z p := hp.active_eq p
  cases hpart : r.part z p with
  | none =>
    rw [Source.shown, hpart]
    exact hc.idle p (hactive.trans hpart)
  | some q =>
    rw [Source.shown, hpart]
    rcases hc.shows p q (hactive.trans hpart) with ⟨-, hpending⟩ | ⟨result, hstate, hended⟩
    · exact absurd hpending (hs.not_pending _)
    · rw [hstate, hended.eq_reply ha, hc.zone_eq]

/-! ## Every session can settle -/

/-- A request once the source has answered it. -/
def replied (source : Source) (q : PaneRequest) : PaneRequest :=
  if q.isWaiting then { q with reply := some (source.chart q.bounds q.fetch.pane) } else q

/-- The answers of a source to all requests that wait. -/
def replies (source : Source) (s : Session) : List Event :=
  s.waiting.map fun (id, q) => .answer id (source.chart q.bounds q.fetch.pane)

theorem answerAll_eq_stepAll (source : Source) (s : Session) :
    Viewer.answerAll source s = (s.stepAll (replies source s)).deliver := by
  rw [Viewer.answerAll, replies, stepAll, List.foldl_map]
  rfl

/-- Answers to the requests after a front that is done. The induction is on those requests, each of
which moves to the front when its turn is over. -/
theorem stepAll_answers (source : Source) (front rest : List PaneRequest) (s : Session)
    (h : s.requests = front ++ rest) :
    let t := s.stepAll (((rest.zipIdx front.length).filter (·.1.isWaiting)).map fun (q, id) =>
      .answer id (source.chart q.bounds q.fetch.pane))
    t.requests = front ++ rest.map (replied source) ∧ t.issued = s.issued := by
  induction rest generalizing front s with
  | nil => simpa using h
  | cons q rest ih =>
    by_cases hw : q.isWaiting
    · obtain ⟨fetch, bounds, reply⟩ := q
      obtain rfl : reply = none := by simpa [PaneRequest.isWaiting] using hw
      have hget : s.requests[front.length]? = some ⟨fetch, bounds, none⟩ := by simp [h]
      have hrequests : (s.step (.answer front.length (source.chart bounds fetch.pane))).requests =
          (front ++ [replied source ⟨fetch, bounds, none⟩]) ++ rest := by
        simp only [step, answer_of_waiting hget, h]
        simp [replied, PaneRequest.isWaiting]
      have hissued : (s.step (.answer front.length (source.chart bounds fetch.pane))).issued =
          s.issued := by
        simp only [step, answer_of_waiting hget]
      have hrest := ih _ _ hrequests
      rw [List.length_append, List.length_singleton, hissued] at hrest
      simpa [List.zipIdx_cons, hw] using hrest
    · have hrest := ih (front ++ [q]) s (by simpa using h)
      rw [List.length_append, List.length_singleton] at hrest
      simpa [List.zipIdx_cons, hw, replied] using hrest

theorem requests_replies (source : Source) (s : Session) :
    (s.stepAll (replies source s)).requests = s.requests.map (replied source) ∧
      (s.stepAll (replies source s)).issued = s.issued := by
  have h := stepAll_answers source [] s.requests s rfl
  simpa [replies, waiting, Function.comp_def] using h

theorem reply_replied (source : Source) (q : PaneRequest) :
    (replied source q).reply = q.reply.or (some (source.chart q.bounds q.fetch.pane)) := by
  obtain ⟨fetch, bounds, reply⟩ := q
  cases reply <;> rfl

theorem settled_answerAll (source : Source) (h : s.issued = []) :
    (Viewer.answerAll source s).Settled := by
  obtain ⟨hrequests, hissued⟩ := requests_replies source s
  rw [answerAll_eq_stepAll]
  refine ⟨hissued.trans h, rfl, ?_⟩
  change ∀ q ∈ (s.stepAll (replies source s)).requests, q.reply ≠ none
  rw [hrequests]
  intro q hq
  obtain ⟨q, -, rfl⟩ := List.mem_map.mp hq
  rw [reply_replied]
  cases q.reply <;> simp

theorem AnsweredBy.answerAll (ha : s.AnsweredBy source) :
    (Viewer.answerAll source s).AnsweredBy source := by
  rw [answerAll_eq_stepAll]
  change ∀ q ∈ (s.stepAll (replies source s)).requests, _
  rw [(requests_replies source s).1]
  intro q' hq' result hresult
  obtain ⟨⟨fetch, bounds, reply⟩, hq, rfl⟩ := List.mem_map.mp hq'
  cases reply with
  | none => exact (Option.some.inj hresult).symm
  | some reply => exact ha _ hq result hresult

theorem issued_run (s : Session) : s.run.issued = [] := by
  have h : ∀ fetches : List PaneFetch, ∀ t : Session,
      (fetches.foldl startOne t).issued = t.issued := by
    intro fetches
    induction fetches with
    | nil => exact fun t => rfl
    | cons f fetches ih =>
      intro t
      rw [List.foldl_cons, ih]
      simp only [startOne]
      split <;> rfl
  exact h s.issued _

/-- A fetch that starts has no answer yet. -/
theorem AnsweredBy.run (ha : s.AnsweredBy source) : s.run.AnsweredBy source := by
  have h : ∀ fetches : List PaneFetch, ∀ t : Session, t.AnsweredBy source →
      (fetches.foldl startOne t).AnsweredBy source := by
    intro fetches
    induction fetches with
    | nil => exact fun t ht => ht
    | cons f fetches ih =>
      intro t ht
      apply ih _
      simp only [startOne]
      split
      · intro q hq result hresult
        rcases List.mem_append.mp hq with hq | hq
        · exact ht q hq result hresult
        · rw [List.mem_singleton.mp hq] at hresult
          simp at hresult
      · exact ht
  exact h s.issued _ ha

/-- The fetches of a session can all end, and a source can answer them. -/
theorem exists_settling (source : Source) (s : Session) :
    ∃ completions : List Event, (∀ e ∈ completions, e.isCompletion) ∧
      s.stepAll completions = Viewer.answerAll source s.run := by
  obtain ⟨starts, hstarts, hrun⟩ := run_eq_stepAll s
  refine ⟨starts ++ (replies source s.run ++
    List.replicate (s.run.stepAll (replies source s.run)).answers.length (.publish 0)), ?_, ?_⟩
  · intro e he
    rcases List.mem_append.mp he with he | he
    · exact hstarts e he
    · rcases List.mem_append.mp he with he | he
      · obtain ⟨-, -, rfl⟩ := List.mem_map.mp he
        rfl
      · rw [(List.mem_replicate.mp he).2]
        rfl
  · rw [stepAll_append, ← hrun, stepAll_append, ← deliver_eq_stepAll, answerAll_eq_stepAll]

/-! ## A fresh session with the same selection -/

theorem selection_of_isCompletion {e : Event} (he : e.isCompletion) (selection : Option Range) :
    e.selection z selection = selection := by
  rcases Event.isCompletion_cases he with ⟨index, rfl⟩ | ⟨id, result, rfl⟩ | ⟨index, rfl⟩ <;> rfl

theorem foldl_selection_of_isCompletion {completions : List Event}
    (h : ∀ e ∈ completions, e.isCompletion) (selection : Option Range) :
    completions.foldl (Event.selection z) selection = selection := by
  induction completions with
  | nil => rfl
  | cons e completions ih =>
    rw [List.foldl_cons, selection_of_isCompletion (h e List.mem_cons_self)]
    exact ih fun e he => h e (List.mem_cons_of_mem _ he)

/-- One range alone is selected, and then its fetches end. -/
theorem lastAccepted_select {b : Bounds} (hb : r.bounds z = .ok b) {completions : List Event}
    (h : ∀ e ∈ completions, e.isCompletion) :
    lastAccepted z (.select r :: completions) = some r := by
  rw [lastAccepted, List.foldl_cons, foldl_selection_of_isCompletion h, Event.selection_select hb]

/-- Selections request nothing themselves. -/
theorem requests_select (s : Session) (r : Range) : (s.select r).1.requests = s.requests := by
  rw [select]
  cases s.dashboard.select r <;> rfl

theorem after_cons (z : Zone) (e : Event) (completions : List Event) :
    after z (e :: completions) = (after z [e]).stepAll completions :=
  after_append z [e] completions

/-- The fetches of a fresh session with one selection can all end, answered by a source. -/
theorem exists_fresh_settled (source : Source) (z : Zone) (r : Range) :
    ∃ completions : List Event, (∀ e ∈ completions, e.isCompletion) ∧
      (after z (.select r :: completions)).Settled ∧
      (after z (.select r :: completions)).AnsweredBy source := by
  have hnew : (after z [.select r]).AnsweredBy source := by
    intro q hq
    rw [after, stepAll_cons, stepAll_nil, step, requests_select] at hq
    cases hq
  obtain ⟨completions, hall, heq⟩ := exists_settling source (after z [.select r])
  refine ⟨completions, hall, ?_⟩
  rw [after_cons, heq]
  exact ⟨settled_answerAll source (issued_run _), hnew.run.answerAll⟩

/-- When all fetches have ended and a source has answered each by its query alone, a session shows
nothing if nothing was accepted. Else it has the range and the layout of a fresh session in which only
the last accepted range was selected, and in every view it shows the same once the fetches of that
session have ended, which they can. -/
theorem settled_like_fresh (source : Source) (z : Zone) (events : List Event)
    (hs : (after z events).Settled) (ha : (after z events).AnsweredBy source) :
    (lastAccepted z events = none → (after z events).dashboard.Blank) ∧
    ∀ r, lastAccepted z events = some r →
      (∃ completions : List Event, (∀ e ∈ completions, e.isCompletion) ∧
        (after z (.select r :: completions)).Settled ∧
        (after z (.select r :: completions)).AnsweredBy source) ∧
      ∀ completions : List Event, (∀ e ∈ completions, e.isCompletion) →
        let fresh := after z (.select r :: completions)
        fresh.Settled → fresh.AnsweredBy source →
        (after z events).dashboard.range = fresh.dashboard.range ∧
        (after z events).dashboard.layout = fresh.dashboard.layout ∧
        ∀ p, ((after z events).view p).active = (fresh.view p).active ∧
          ((after z events).view p).state = (fresh.view p).state := by
  have hc := consistent_after z events
  have hp := pointed_after z events
  refine ⟨fun hnone => blank_of_pointed (hnone ▸ hp) hc, fun r hr => ?_⟩
  obtain ⟨b, hb⟩ := exists_bounds_of_lastAccepted hr
  rw [hr] at hp
  constructor
  · exact exists_fresh_settled source z r
  · intro completions hall fresh hfs hfa
    have hfc : fresh.Consistent z := consistent_after z _
    have hfp : fresh.Pointed z (some r) := lastAccepted_select hb hall ▸ pointed_after z _
    refine ⟨hp.range_eq.trans hfp.range_eq.symm, hp.layout_eq.trans hfp.layout_eq.symm, ?_⟩
    intro p
    refine ⟨(hp.active_eq p).trans (hfp.active_eq p).symm, ?_⟩
    rw [state_of_settled hc hp hs ha p, state_of_settled hfc hfp hfs hfa p]

/-- A source that finds one executable in use for as long as the range lasts. -/
def steadySource : Source where
  records b := .ok [⟨.ofInt b.lower, .ofInt b.upper, 1, "/bin/sh", ""⟩]
  usages b := .ok [⟨"/bin/sh", .ofInt (b.upper - b.lower)⟩]
  activeDays := .ok []
  config := .error (.transport "")

/-- Two days selected one after the other. The answers for the first day reach the views last. -/
def lateAnswers (first second : Range) (b c : Bounds) : List Event :=
  [.select first, .launch 0, .launch 0, .select second, .launch 1, .launch 0,
    .answer 2 (steadySource.chart c .timeline), .answer 3 (steadySource.chart c .summary),
    .answer 0 (steadySource.chart b .summary), .answer 1 (steadySource.chart b .timeline),
    .publish 1, .publish 0, .publish 1, .publish 0]

theorem settled_like_fresh_late_answers :
    let first := Range.day ⟨0, 0, by decide, by decide⟩
    let second := Range.day ⟨86400, 0, by decide, by decide⟩
    let events := lateAnswers first second ⟨0, 86400000⟩ ⟨86400000, 172800000⟩
    (after .utc events).Settled ∧ (after .utc events).AnsweredBy steadySource ∧
      lastAccepted .utc events = some second ∧
      ∃ completions : List Event, (∀ e ∈ completions, e.isCompletion) ∧
        ∀ p, ((after .utc events).view p).state =
          ((after .utc (.select second :: completions)).view p).state := by
  intro first second events
  have hs : (after .utc events).Settled := by decide +kernel
  have ha : (after .utc events).AnsweredBy steadySource := by decide +kernel
  have h := settled_like_fresh steadySource .utc events hs ha
  obtain ⟨⟨completions, hall, hfs, hfa⟩, hsame⟩ := h.2 second (by decide +kernel)
  refine ⟨hs, ha, by decide +kernel, completions, hall, fun p => ?_⟩
  exact ((hsame completions hall hfs hfa).2.2 p).2

end Session

end Daybook
