import Daybook.View.Feed
import Mathlib.Algebra.Group.Nat.Defs

/-! # Only the newest fetch is seen

Whatever the order in which ranges are set and cleared and fetches end, a view shows what the fetch
has brought that it issued last, and nothing while it has no range. -/

namespace Daybook

/-! ## Runs -/

namespace Feed

variable {ρ α : Type}

/-- What happens to a view: its range is set or forgotten, a fetch completes with a result, or a
fetch dies. -/
inductive Event (ρ α : Type)
  | set (range : ρ)
  | clear
  | complete (id : Nat) (result : Except FetchError α)
  | crash (id : Nat)

/-- The range after an event, for a given range before it. -/
def Event.range (old : Option ρ) : Event ρ α → Option ρ
  | set range => some range
  | clear => none
  | complete _ _ => old
  | crash _ => old

/-- The event is one that may start a new generation. -/
def Event.isChange : Event ρ α → Bool
  | set _ => true
  | clear => true
  | complete _ _ => false
  | crash _ => false

/-- A fetch that completes is one that was on its way, and its result reaches the view at once. -/
def step [DecidableEq ρ] (f : Feed ρ α) : Event ρ α → Feed ρ α
  | .set range => (f.set range).1
  | .clear => f.clear
  | .complete id result => (f.finish id result).1.deliver
  | .crash id => (f.crash id).1

/-- A new view after a run of events. -/
def after [DecidableEq ρ] (events : List (Event ρ α)) : Feed ρ α :=
  events.foldl step {}

/-- The range that the last `set` asked for, unless a `clear` came after it. -/
def lastRange (events : List (Event ρ α)) : Option ρ :=
  events.foldl Event.range none

/-- How many events of a run may have started a new generation. -/
def changes (events : List (Event ρ α)) : Nat :=
  events.countP Event.isChange

end Feed

/-- What a view shows while its newest fetch is at a stage. -/
def Stage.shown {α : Type} : Stage α → ViewState α
  | waiting => .loading
  | held _ => .loading
  | delivered result => .ofResult result
  | lost => .loading

theorem ViewState.ofResult_ne_idle {α : Type} (result : Except FetchError α) :
    ViewState.ofResult result ≠ .idle := by
  cases result <;> simp [ViewState.ofResult]

theorem Stage.shown_ne_idle {α : Type} (stage : Stage α) : stage.shown ≠ .idle := by
  cases stage with
  | delivered result => exact ViewState.ofResult_ne_idle result
  | _ => simp [Stage.shown]

namespace Feed

variable {ρ α : Type} {f : Feed ρ α}

/-! ## What one operation does -/

@[simp]
theorem view_mark (f : Feed ρ α) (id : Nat) (stage : Stage α) : (f.mark id stage).view = f.view :=
  rfl

@[simp]
theorem length_fetches_mark (f : Feed ρ α) (id : Nat) (stage : Stage α) :
    (f.mark id stage).fetches.length = f.fetches.length := by
  simp [mark]

theorem getElem?_fetches_mark (f : Feed ρ α) (id i : Nat) (stage : Stage α) :
    (f.mark id stage).fetches[i]? =
      (f.fetches[i]?).map fun fetch => if id = i then { fetch with stage } else fetch := by
  rw [mark, List.getElem?_modify]
  split
  · rfl
  · simp

/-- A fetch on its way is one whose stage says so. -/
theorem isWaiting_iff (f : Feed ρ α) (id : Nat) :
    f.isWaiting id ↔ ∃ fetch, f.fetches[id]? = some fetch ∧ fetch.stage = .waiting := by
  simp only [isWaiting]
  split
  · next range generation h => simp [h]
  · next h =>
    simp only [Bool.false_eq_true, false_iff, not_exists, not_and]
    rintro ⟨range, generation, stage⟩ hf rfl
    exact h range generation hf

/-- A completion marks its fetch and offers the result to the view. -/
theorem step_complete [DecidableEq ρ] {id : Nat} {fetch : Fetch ρ α} (hh : f.held = [])
    (hf : f.fetches[id]? = some fetch) (hw : fetch.stage = .waiting)
    (result : Except FetchError α) :
    f.step (.complete id result) =
      { f.mark id (.delivered result) with view := f.view.publish fetch.generation result } := by
  have hwait : f.isWaiting id := (isWaiting_iff f id).2 ⟨fetch, hf, hw⟩
  have hheld : (f.mark id (.held result)).fetches[id]? = some { fetch with stage := .held result } := by
    simp [getElem?_fetches_mark, hf]
  simp only [step, finish, hwait, if_true, hh, List.nil_append, deliver, List.foldl_cons,
    List.foldl_nil, deliverOne]
  simp only [hheld]
  simp only [mark, List.modify_modify_eq, hh]
  rfl

theorem step_complete_of_not_waiting [DecidableEq ρ] {id : Nat} (hh : f.held = [])
    (hw : ¬f.isWaiting id) (result : Except FetchError α) : f.step (.complete id result) = f := by
  simp only [step, finish, hw, deliver, hh]
  simp only [Bool.false_eq_true, if_false, hh, List.foldl_nil]
  rw [← hh]

theorem getElem?_fetches_complete [DecidableEq ρ] {id : Nat} {fetch : Fetch ρ α} (hh : f.held = [])
    (hf : f.fetches[id]? = some fetch) (hw : fetch.stage = .waiting)
    (result : Except FetchError α) :
    (f.step (.complete id result)).fetches[id]? =
      some { fetch with stage := .delivered result } := by
  rw [step_complete hh hf hw]
  change (f.mark id (.delivered result)).fetches[id]? = _
  simp [getElem?_fetches_mark, hf]

/-! ## The invariant -/

/-- The view and its newest fetch agree, and no other fetch has the generation of the view. -/
structure Agrees (f : Feed ρ α) : Prop where
  /-- Every result has reached the view at once. -/
  held_eq : f.held = []
  /-- Only the newest fetch of a view with a range is current. -/
  generation_lt : ∀ id fetch, f.fetches[id]? = some fetch →
    id + 1 ≠ f.fetches.length ∨ f.view.active = none → fetch.generation < f.view.generation
  idle : f.view.active = none → f.view.state = .idle
  newest : ∀ range, f.view.active = some range → ∃ fetch,
    f.fetches[f.fetches.length - 1]? = some fetch ∧ fetch.range = range ∧
      fetch.generation = f.view.generation ∧ f.view.state = fetch.stage.shown

theorem agrees_empty : Agrees ({} : Feed ρ α) where
  held_eq := rfl
  generation_lt := by simp
  idle _ := rfl
  newest := by simp

namespace Agrees

/-- The fetch at the end is the newest one. -/
theorem generation_of_last (h : f.Agrees) {range : ρ} (hrange : f.view.active = some range)
    {id : Nat} (hid : id + 1 = f.fetches.length) {fetch : Fetch ρ α}
    (hf : f.fetches[id]? = some fetch) : fetch.generation = f.view.generation := by
  obtain ⟨newest, hnewest, -, hgeneration, -⟩ := h.newest range hrange
  have hlast : f.fetches.length - 1 = id := by omega
  rw [hlast, hf] at hnewest
  exact (Option.some.inj hnewest) ▸ hgeneration

/-- While the newest fetch is on its way, its view is loading. -/
theorem state_of_waiting (h : f.Agrees) {range : ρ} (hrange : f.view.active = some range)
    {id : Nat} (hid : id + 1 = f.fetches.length) (hw : f.isWaiting id) :
    f.view.state = .loading := by
  obtain ⟨fetch, hfetch, hstage⟩ := (isWaiting_iff f id).mp hw
  obtain ⟨newest, hnewest, -, -, hstate⟩ := h.newest range hrange
  have hlast : f.fetches.length - 1 = id := by omega
  rw [hlast, hfetch] at hnewest
  rw [hstate, ← Option.some.inj hnewest, hstage, Stage.shown]

theorem generation_le (h : f.Agrees) {id : Nat} {fetch : Fetch ρ α}
    (hf : f.fetches[id]? = some fetch) : fetch.generation ≤ f.view.generation := by
  by_cases hid : id + 1 ≠ f.fetches.length ∨ f.view.active = none
  · exact Nat.le_of_lt (h.generation_lt id fetch hf hid)
  · obtain ⟨hid, hactive⟩ := not_or.mp hid
    obtain ⟨range, hrange⟩ := Option.ne_none_iff_exists'.mp hactive
    exact Nat.le_of_eq (h.generation_of_last hrange (Decidable.not_not.mp hid) hf)

theorem set [DecidableEq ρ] (h : f.Agrees) (range : ρ) : (f.set range).1.Agrees := by
  by_cases hactive : f.view.active = some range
  · simpa [Feed.set, View.set_of_active hactive] using h
  · simp only [Feed.set, View.set_of_active_ne hactive]
    refine ⟨h.held_eq, ?_, by simp [View.start], ?_⟩
    · intro id fetch hf hid
      simp only [View.start, List.length_append, List.length_singleton, reduceCtorEq, or_false]
        at hid
      have hlt : id < f.fetches.length := by
        have := (List.getElem?_eq_some_iff.mp hf).1
        simp only [List.length_append, List.length_singleton] at this
        omega
      rw [List.getElem?_append_left hlt] at hf
      exact Nat.lt_succ_of_le (h.generation_le hf)
    · intro range' hrange
      obtain rfl : range = range' := by simpa [View.start] using hrange
      exact ⟨⟨range, f.view.generation + 1, .waiting⟩, by simp, rfl, rfl, rfl⟩

theorem clear (h : f.Agrees) : f.clear.Agrees where
  held_eq := h.held_eq
  generation_lt _ _ hf _ := Nat.lt_succ_of_le (h.generation_le hf)
  idle _ := rfl
  newest := by simp [Feed.clear, View.clear, View.start]

/-- A new stage leaves the generations alone. -/
theorem generation_lt_mark (h : f.Agrees) {id i : Nat} {stage : Stage α} {fetch : Fetch ρ α}
    (hf : (f.mark id stage).fetches[i]? = some fetch)
    (hi : i + 1 ≠ f.fetches.length ∨ f.view.active = none) :
    fetch.generation < f.view.generation := by
  rw [getElem?_fetches_mark, Option.map_eq_some_iff] at hf
  obtain ⟨old, hold, rfl⟩ := hf
  have hlt := h.generation_lt i old hold hi
  split <;> exact hlt

/-- The newest fetch after one has got a new stage: the state of the view still has to be compared with
that stage if the newest fetch is the one. -/
theorem newest_mark (h : f.Agrees) {range : ρ} (hrange : f.view.active = some range) (id : Nat)
    (stage : Stage α) :
    ∃ newest, (f.mark id stage).fetches[f.fetches.length - 1]? = some newest ∧
      newest.range = range ∧ newest.generation = f.view.generation ∧
      (id + 1 = f.fetches.length → newest.stage = stage) ∧
      (id + 1 ≠ f.fetches.length → f.view.state = newest.stage.shown) := by
  obtain ⟨newest, hnewest, hr, hgeneration, hstate⟩ := h.newest range hrange
  have hlt := (List.getElem?_eq_some_iff.mp hnewest).1
  rw [getElem?_fetches_mark, hnewest, Option.map_some]
  by_cases hid : id + 1 = f.fetches.length
  · have hlast : id = f.fetches.length - 1 := by omega
    rw [if_pos hlast]
    exact ⟨_, rfl, hr, hgeneration, fun _ => rfl, fun hne => absurd hid hne⟩
  · have hlast : id ≠ f.fetches.length - 1 := by omega
    rw [if_neg hlast]
    exact ⟨_, rfl, hr, hgeneration, fun heq => absurd heq hid, fun _ => hstate⟩

/-- A fetch that dies on its way changes nothing visible. -/
theorem mark_lost (h : f.Agrees) {id : Nat} (hw : f.isWaiting id) : (f.mark id .lost).Agrees := by
  refine ⟨h.held_eq, ?_, h.idle, ?_⟩
  · intro i fetch hf hi
    rw [length_fetches_mark] at hi
    exact h.generation_lt_mark hf hi
  · intro range hrange
    obtain ⟨newest, hnewest, hr, hgeneration, hlast, hother⟩ := h.newest_mark hrange id .lost
    refine ⟨newest, ?_, hr, hgeneration, ?_⟩
    · rwa [length_fetches_mark]
    · by_cases hid : id + 1 = f.fetches.length
      · rw [hlast hid]
        exact h.state_of_waiting hrange hid hw
      · exact hother hid

/-- A result reaches the view if its fetch is the newest, else it is dropped. -/
theorem complete [DecidableEq ρ] (h : f.Agrees) (id : Nat) (result : Except FetchError α) :
    (f.step (.complete id result)).Agrees := by
  by_cases hw : f.isWaiting id
  · obtain ⟨fetch, hfetch, hstage⟩ := (isWaiting_iff f id).mp hw
    rw [step_complete h.held_eq hfetch hstage]
    refine ⟨h.held_eq, ?_, ?_, ?_⟩
    · intro i g hg hi
      simp only [length_fetches_mark, View.active_publish, View.generation_publish] at hi ⊢
      exact h.generation_lt_mark hg hi
    · -- Without a range every fetch is outdated, so the result is dropped.
      intro hactive
      simp only [View.active_publish] at hactive
      have hlt := h.generation_lt id fetch hfetch (.inr hactive)
      simp only [View.publish_of_ne (Nat.ne_of_lt hlt) result]
      exact h.idle hactive
    · intro range hrange
      simp only [View.active_publish] at hrange
      obtain ⟨newest, hnewest, hr, hgeneration, hlast, hother⟩ :=
        h.newest_mark hrange id (.delivered result)
      simp only [length_fetches_mark, View.generation_publish]
      refine ⟨newest, hnewest, hr, hgeneration, ?_⟩
      by_cases hid : id + 1 = f.fetches.length
      · simp [View.publish, h.generation_of_last hrange hid hfetch, hlast hid, Stage.shown]
      · have hlt := h.generation_lt id fetch hfetch (.inl hid)
        simp only [View.publish_of_ne (Nat.ne_of_lt hlt) result]
        exact hother hid
  · rw [step_complete_of_not_waiting h.held_eq hw]
    exact h

/-- A result of any fetch but the newest of a view with a range changes nothing visible. -/
theorem view_complete [DecidableEq ρ] (h : f.Agrees) (id : Nat) (result : Except FetchError α)
    (hid : id + 1 ≠ f.fetches.length ∨ f.view.active = none) :
    (f.step (.complete id result)).view = f.view := by
  by_cases hw : f.isWaiting id
  · obtain ⟨fetch, hfetch, hstage⟩ := (isWaiting_iff f id).mp hw
    have hlt := h.generation_lt id fetch hfetch hid
    rw [step_complete h.held_eq hfetch hstage]
    exact View.publish_of_ne (Nat.ne_of_lt hlt) result
  · rw [step_complete_of_not_waiting h.held_eq hw]

theorem state_eq_idle_iff (h : f.Agrees) : f.view.state = .idle ↔ f.view.active = none := by
  refine ⟨fun hidle => ?_, h.idle⟩
  cases hactive : f.view.active with
  | none => rfl
  | some range =>
    obtain ⟨newest, -, -, -, hstate⟩ := h.newest range hactive
    exact absurd (hstate ▸ hidle) newest.stage.shown_ne_idle

theorem step [DecidableEq ρ] (h : f.Agrees) (e : Event ρ α) : (f.step e).Agrees := by
  cases e with
  | set range => exact h.set range
  | clear => exact h.clear
  | complete id result => exact h.complete id result
  | crash id =>
    simp only [Feed.step, Feed.crash]
    split
    · next hw => exact h.mark_lost hw
    · exact h

theorem foldl_step [DecidableEq ρ] (h : f.Agrees) (events : List (Event ρ α)) :
    (events.foldl Feed.step f).Agrees := by
  induction events generalizing f with
  | nil => exact h
  | cons e events ih => exact ih (h.step e)

end Agrees

theorem agrees_after [DecidableEq ρ] (events : List (Event ρ α)) : (after events).Agrees :=
  agrees_empty.foldl_step events

/-! ## The range and the generations of a run -/

theorem active_step [DecidableEq ρ] (h : f.Agrees) (e : Event ρ α) :
    (f.step e).view.active = e.range f.view.active := by
  cases e with
  | set range =>
    by_cases hactive : f.view.active = some range
    · simp [step, Feed.set, View.set_of_active hactive, hactive, Event.range]
    · simp [step, Feed.set, View.set_of_active_ne hactive, View.start, Event.range]
  | clear => rfl
  | complete id result =>
    by_cases hw : f.isWaiting id
    · obtain ⟨fetch, hfetch, hstage⟩ := (isWaiting_iff f id).mp hw
      simp [step_complete h.held_eq hfetch hstage, Event.range]
    · rw [step_complete_of_not_waiting h.held_eq hw]
      rfl
  | crash id =>
    simp only [step, crash]
    split <;> rfl

theorem active_after [DecidableEq ρ] (events : List (Event ρ α)) :
    (after events).view.active = lastRange events := by
  suffices h : ∀ f : Feed ρ α, f.Agrees →
      (events.foldl step f).view.active = events.foldl Event.range f.view.active from
    h {} agrees_empty
  induction events with
  | nil => intro f _; rfl
  | cons e events ih =>
    intro f hf
    rw [List.foldl_cons, List.foldl_cons, ih _ (hf.step e), active_step hf]

theorem generation_step_le [DecidableEq ρ] (h : f.Agrees) (e : Event ρ α) :
    (f.step e).view.generation ≤ f.view.generation + e.isChange.toNat := by
  cases e with
  | set range =>
    by_cases hactive : f.view.active = some range
    · simp [step, Feed.set, View.set_of_active hactive]
    · simp [step, Feed.set, View.set_of_active_ne hactive, View.start, Event.isChange]
  | clear => exact Nat.le_refl _
  | complete id result =>
    by_cases hw : f.isWaiting id
    · obtain ⟨fetch, hfetch, hstage⟩ := (isWaiting_iff f id).mp hw
      simp [step_complete h.held_eq hfetch hstage]
    · simp [step_complete_of_not_waiting h.held_eq hw]
  | crash id =>
    simp only [step, crash]
    split <;> simp

/-- A generation counts changes of the range, so it stays below any bound on their number. -/
theorem generation_after_le [DecidableEq ρ] (events : List (Event ρ α)) :
    (after events).view.generation ≤ changes events := by
  suffices h : ∀ f : Feed ρ α, f.Agrees →
      (events.foldl step f).view.generation ≤ f.view.generation + changes events by
    simpa [after] using h {} agrees_empty
  induction events with
  | nil => intro f _; exact Nat.le_refl _
  | cons e events ih =>
    intro f hf
    have hrest := ih (f.step e) (hf.step e)
    have hstep := generation_step_le hf e
    have hcount : changes (e :: events) = changes events + e.isChange.toNat := by
      simp only [changes, List.countP_cons]
      cases e.isChange <;> rfl
    rw [List.foldl_cons]
    omega

/-! ## What a view shows -/

/-- After any run a view has the range that was set last. It is idle just when it has none; else it
shows what the fetch has brought that it issued last, which is a fetch for its range. A fetch on its
way can complete, which changes nothing visible unless it is this one. While there are fewer than
2^64 changes of the range, generations in 64 bits tell the same fetches apart. -/
theorem shows_newest_after [DecidableEq ρ] (events : List (Event ρ α)) :
    let f := after events
    f.view.active = lastRange events ∧
    (f.view.state = .idle ↔ f.view.active = none) ∧
    (∀ range, f.view.active = some range → ∃ newest, f.fetches.getLast? = some newest ∧
      newest.range = range ∧ f.view.state = newest.stage.shown) ∧
    (∀ id fetch result, f.fetches[id]? = some fetch → fetch.stage = .waiting →
      (f.step (.complete id result)).fetches[id]? =
        some { fetch with stage := .delivered result }) ∧
    (∀ id result, id + 1 ≠ f.fetches.length ∨ f.view.active = none →
      (f.step (.complete id result)).view = f.view) ∧
    (changes events < 2 ^ 64 → ∀ fetch ∈ f.fetches,
      (UInt64.ofNat fetch.generation = UInt64.ofNat f.view.generation ↔
        fetch.generation = f.view.generation)) := by
  intro f
  have h : f.Agrees := agrees_after events
  refine ⟨active_after events, h.state_eq_idle_iff, ?_, ?_, fun id result => h.view_complete id result,
    ?_⟩
  · intro range hrange
    obtain ⟨newest, hnewest, hr, -, hstate⟩ := h.newest range hrange
    exact ⟨newest, by rw [List.getLast?_eq_getElem?, hnewest], hr, hstate⟩
  · intro id fetch result hfetch hstage
    exact getElem?_fetches_complete h.held_eq hfetch hstage result
  · intro hchanges fetch hfetch
    obtain ⟨id, hid⟩ := List.getElem?_of_mem hfetch
    have hle := h.generation_le hid
    have hbound : f.view.generation ≤ changes events := generation_after_le events
    rw [← UInt64.toNat_inj, UInt64.toNat_ofNat', UInt64.toNat_ofNat', Nat.mod_eq_of_lt (by omega),
      Nat.mod_eq_of_lt (by omega)]

/-- A range that comes back is fetched anew, and its old fetch is as outdated as any other. -/
example : (after [.set 1, .set 2, .set 1, .complete 0 (.ok "old")] : Feed Nat String).view.state =
    .loading := by
  decide

end Feed

end Daybook
