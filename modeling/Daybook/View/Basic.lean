import Daybook.Fetch.Error

/-! A view: the range it shows and what it shows of it. Every change of the range starts a new
generation, and only a fetch of the current generation may publish its result. Results of older
fetches are dropped, in whatever order they come in. -/

namespace Daybook

/-- What a view has to show. Only `loading` means that a result is on its way. -/
inductive ViewState (α : Type)
  | idle
  | loading
  | loaded (data : α)
  | failed (e : FetchError)
deriving DecidableEq

/-- What is drawn for a state. -/
inductive Picture (α : Type)
  | nothing
  | progress
  | error (e : FetchError)
  | noData
  | data (data : α)
deriving DecidableEq

namespace ViewState

variable {α : Type}

def isLoading : ViewState α → Bool
  | loading => true
  | _ => false

/-- Loading is never drawn as missing data. -/
def picture (isEmpty : α → Bool) : ViewState α → Picture α
  | idle => .nothing
  | loading => .progress
  | failed e => .error e
  | loaded data => if isEmpty data then .noData else .data data

/-- The state with other data in it. -/
def map {β : Type} (f : α → β) : ViewState α → ViewState β
  | idle => idle
  | loading => loading
  | loaded data => loaded (f data)
  | failed e => failed e

def ofResult : Except FetchError α → ViewState α
  | .ok data => loaded data
  | .error e => failed e

end ViewState

structure View (ρ α : Type) where
  active : Option ρ := none
  generation : Nat := 0
  state : ViewState α := .idle
  /-- How often those who watch the view were told of a change. -/
  changes : Nat := 0

namespace View

variable {ρ α : Type}

/-- Starts a new generation with a state. -/
def start (v : View ρ α) (active : Option ρ) (state : ViewState α) : View ρ α :=
  ⟨active, v.generation + 1, state, v.changes + 1⟩

/-- Switches to a range and gives the generation for which to fetch it. The range that the view
already shows changes nothing and needs no fetch. -/
def set [DecidableEq ρ] (v : View ρ α) (range : ρ) : View ρ α × Option Nat :=
  if v.active = some range then (v, none)
  else (v.start (some range) .loading, some (v.generation + 1))

/-- Forgets the range, and with it every fetch on its way. -/
def clear (v : View ρ α) : View ρ α :=
  v.start none .idle

/-- Switches to a range, or to none. -/
def point [DecidableEq ρ] (v : View ρ α) : Option ρ → View ρ α × Option Nat
  | some range => v.set range
  | none => (v.clear, none)

/-- Takes the result of a fetch of the current generation; any other one is dropped. -/
def publish (v : View ρ α) (generation : Nat) (result : Except FetchError α) : View ρ α :=
  if generation = v.generation then
    { v with state := .ofResult result, changes := v.changes + 1 }
  else
    v

theorem set_of_active [DecidableEq ρ] {v : View ρ α} {range : ρ} (h : v.active = some range) :
    v.set range = (v, none) :=
  if_pos h

theorem set_of_active_ne [DecidableEq ρ] {v : View ρ α} {range : ρ} (h : v.active ≠ some range) :
    v.set range = (v.start (some range) .loading, some (v.generation + 1)) :=
  if_neg h

theorem publish_of_ne {v : View ρ α} {generation : Nat} (h : generation ≠ v.generation)
    (result : Except FetchError α) : v.publish generation result = v :=
  if_neg h

@[simp]
theorem active_publish (v : View ρ α) (generation : Nat) (result : Except FetchError α) :
    (v.publish generation result).active = v.active := by
  simp only [publish]
  split <;> rfl

@[simp]
theorem generation_publish (v : View ρ α) (generation : Nat) (result : Except FetchError α) :
    (v.publish generation result).generation = v.generation := by
  simp only [publish]
  split <;> rfl

end View

end Daybook
