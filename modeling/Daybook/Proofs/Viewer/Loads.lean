import Daybook.Viewer.ActiveDays

/-! # Loading the active days

Whatever is asked for and answered, the known days are those of the last request that succeeded, and
they decide alone which calls make a request. -/

namespace Daybook.ActiveDays

/-! ## Runs -/

/-- A call on some day, and what the source answers if it is asked. -/
inductive Load
  | ensure (today : Date) (answer : Except FetchError (List Int64))
  | refresh (today : Date) (answer : Except FetchError (List Int64))

/-- A request that was made on some day, and its answer. -/
structure Request where
  today : Date
  answer : Except FetchError (List Int64)

/-- What a request has brought, if it has succeeded: the days, and the day on which it was made. -/
def Request.brought? (r : Request) : Option (List Int64 × Date) :=
  match r.answer with
  | .ok days => some (days, r.today)
  | .error _ => none

/-- What the last request that succeeded has brought. -/
def lastBrought? (requests : List Request) : Option (List Int64 × Date) :=
  (requests.filterMap Request.brought?).getLast?

/-- The known days, and all requests made for them. -/
structure Log where
  days : ActiveDays := {}
  requests : List Request := []

namespace Log

/-- Makes a call, and writes down the request if there is one. -/
def step (l : Log) : Load → Log × Except FetchError Unit
  | .ensure today answer =>
    match l.days.ensure today answer with
    | (days, result, true) => (⟨days, l.requests ++ [⟨today, answer⟩]⟩, result)
    | (days, result, false) => (⟨days, l.requests⟩, result)
  | .refresh today answer =>
    match l.days.refresh today answer with
    | (days, result) => (⟨days, l.requests ++ [⟨today, answer⟩]⟩, result)

/-- Some known days after further calls. -/
def stepAll (l : Log) (loads : List Load) : Log :=
  loads.foldl (fun l load => (l.step load).1) l

end Log

/-- New active days after calls. -/
def after (loads : List Load) : Log :=
  Log.stepAll {} loads

theorem after_append (first rest : List Load) : after (first ++ rest) = (after first).stepAll rest :=
  List.foldl_append

/-! ## What a call does -/

theorem lastBrought?_concat (requests : List Request) (r : Request) :
    lastBrought? (requests ++ [r]) = r.brought?.or (lastBrought? requests) := by
  rw [lastBrought?, List.filterMap_append, List.getLast?_append, lastBrought?]
  cases h : r.brought? <;> simp [h]

/-- A refresh takes what its request brings and keeps what is known if that is nothing. -/
theorem refresh_eq (a : ActiveDays) (today : Date) (answer : Except FetchError (List Int64)) :
    a.refresh today answer =
      (⟨(Request.mk today answer).brought?.or a.loaded⟩, answer.map fun _ => ()) := by
  cases answer <;> rfl

/-- No two answers to a refresh do the same. -/
theorem refresh_injective (a : ActiveDays) (today : Date) {x y : Except FetchError (List Int64)}
    (h : a.refresh today x = a.refresh today y) : x = y := by
  cases x <;> cases y <;> simp_all [refresh]

/-- Where the days are not known for today, making sure of them is a refresh. -/
theorem ensure_of_not_isCurrent {a : ActiveDays} {today : Date} (h : ¬a.isCurrent today)
    (answer : Except FetchError (List Int64)) :
    a.ensure today answer =
      ((a.refresh today answer).1, (a.refresh today answer).2, true) :=
  if_neg h

namespace Log

variable {l : Log}

theorem step_refresh (l : Log) (today : Date) (answer : Except FetchError (List Int64)) :
    l.step (.refresh today answer) =
      (⟨⟨(Request.mk today answer).brought?.or l.days.loaded⟩, l.requests ++ [⟨today, answer⟩]⟩,
        answer.map fun _ => ()) := by
  simp only [step, refresh_eq]

/-- Making sure of days that are known for today does nothing, and of others it is a refresh. -/
theorem step_ensure (l : Log) (today : Date) (answer : Except FetchError (List Int64)) :
    l.step (.ensure today answer) =
      if l.days.isCurrent today then (l, .ok ()) else l.step (.refresh today answer) := by
  split
  · next h => simp only [step, ensure_of_isCurrent h]
  · next h => simp only [step, ensure_of_not_isCurrent h]

/-- A call does nothing, or it is a refresh. -/
theorem step_cases (l : Log) (load : Load) :
    l.step load = (l, .ok ()) ∨ ∃ today answer, l.step load = l.step (.refresh today answer) := by
  cases load with
  | refresh today answer => exact .inr ⟨today, answer, rfl⟩
  | ensure today answer =>
    rw [step_ensure]
    split
    · exact .inl rfl
    · exact .inr ⟨today, answer, rfl⟩

/-- A call fails if it makes a request that fails, and only the request is written down then. -/
theorem step_of_error {load : Load} {e : FetchError} (h : (l.step load).2 = .error e) :
    ∃ today, l.step load = (⟨l.days, l.requests ++ [⟨today, .error e⟩]⟩, .error e) := by
  rcases l.step_cases load with heq | ⟨today, answer, heq⟩
  · simp [heq] at h
  · rw [heq, step_refresh] at h
    cases answer with
    | ok days => simp [Except.map] at h
    | error e' =>
      obtain rfl : e' = e := by simpa [Except.map] using h
      exact ⟨today, by rw [heq, step_refresh]; rfl⟩

/-! ## The invariant -/

/-- The known days are those of the last request that succeeded. -/
def Sound (l : Log) : Prop :=
  l.days.loaded = lastBrought? l.requests

theorem Sound.step (h : l.Sound) (load : Load) : (l.step load).1.Sound := by
  rcases l.step_cases load with heq | ⟨today, answer, heq⟩
  · rwa [heq]
  · rw [heq, step_refresh, Sound, lastBrought?_concat, h]

theorem Sound.stepAll (h : l.Sound) (loads : List Load) : (l.stepAll loads).Sound := by
  induction loads generalizing l with
  | nil => exact h
  | cons load loads ih => exact ih (h.step load)

/-- Days that are known stay known. -/
theorem isLoaded_step (h : l.days.isLoaded) (load : Load) : (l.step load).1.days.isLoaded := by
  rcases l.step_cases load with heq | ⟨today, answer, heq⟩
  · rwa [heq]
  · rw [isLoaded] at h
    rw [heq, step_refresh, isLoaded, Option.isSome_or, h, Bool.or_true]

theorem isLoaded_stepAll (h : l.days.isLoaded) (loads : List Load) :
    (l.stepAll loads).days.isLoaded := by
  induction loads generalizing l with
  | nil => exact h
  | cons load loads ih => exact ih (isLoaded_step h load)

theorem Sound.step_ensure (h : l.Sound) (today : Date)
    (answer : Except FetchError (List Int64)) :
    l.step (.ensure today answer) =
      if (lastBrought? l.requests).any (·.2 = today) then (l, .ok ())
      else l.step (.refresh today answer) := by
  rw [Log.step_ensure, isCurrent, h]

end Log

theorem sound_after (loads : List Load) : (after loads).Sound :=
  Log.Sound.stepAll (l := {}) rfl loads

/-- After any run of calls the known days are those of the last request that succeeded, along with its
day. A refresh makes one request, gives what comes of it, and no two answers leave the same behind.
Making sure of the days does nothing if they were brought on that very day, and is a refresh if not. A
call that fails has made a request with just that error, and leaves the known days as they are, so
that the next call decides as this one would have. Days that are known stay known. -/
theorem knows_last_brought_after (loads : List Load) :
    let l := after loads
    let known := lastBrought? l.requests
    l.days.loaded = known ∧
    (∀ today answer, (l.step (.refresh today answer)).1.requests = l.requests ++ [⟨today, answer⟩] ∧
      (l.step (.refresh today answer)).2 = answer.map fun _ => ()) ∧
    (∀ today x y, l.days.refresh today x = l.days.refresh today y → x = y) ∧
    (∀ today answer, l.step (.ensure today answer) =
      if known.any (·.2 = today) then (l, .ok ()) else l.step (.refresh today answer)) ∧
    (∀ load e, (l.step load).2 = .error e →
      let failed := (l.step load).1
      failed.days = l.days ∧ (∃ today, failed.requests = l.requests ++ [⟨today, .error e⟩]) ∧
      ∀ today answer, failed.step (.ensure today answer) =
        if known.any (·.2 = today) then (failed, .ok ()) else failed.step (.refresh today answer)) ∧
    (l.days.isLoaded → ∀ more, (after (loads ++ more)).days.isLoaded) := by
  intro l known
  have h : l.Sound := sound_after loads
  refine ⟨h, ?_, fun today _ _ => refresh_injective l.days today, h.step_ensure, ?_, ?_⟩
  · intro today answer
    rw [Log.step_refresh]
    exact ⟨rfl, rfl⟩
  · intro load e he failed
    obtain ⟨day, hstep⟩ := Log.step_of_error he
    have hdays : failed.days = l.days := by rw [show failed = _ from congrArg Prod.fst hstep]
    refine ⟨hdays, ⟨day, congrArg (fun s => s.1.requests) hstep⟩, fun today answer => ?_⟩
    rw [Log.step_ensure, isCurrent, hdays, h]
  · intro hloaded more
    rw [after_append]
    exact Log.isLoaded_stepAll hloaded more

/-- A failed refresh on the following day keeps what is known, and the day on which it was brought. -/
example :
    (after [.ensure ⟨1⟩ (.ok [5]), .refresh ⟨2⟩ (.error (.transport "")), .ensure ⟨1⟩ (.ok [])]).days =
      ⟨some ([5], ⟨1⟩)⟩ := rfl

end Daybook.ActiveDays
