import Daybook.View.Basic

/-! A view together with all fetches that it has issued. Fetches end in any order, and their results
may be kept back for a while before the view gets them. -/

namespace Daybook

inductive Stage (α : Type)
  /-- The fetch is on its way. -/
  | waiting
  /-- The fetch has ended and its result is kept back. -/
  | held (result : Except FetchError α)
  /-- The view has been given the result. -/
  | delivered (result : Except FetchError α)
  /-- The fetch has died and has no result. -/
  | lost

structure Fetch (ρ α : Type) where
  range : ρ
  generation : Nat
  stage : Stage α

structure Feed (ρ α : Type) where
  view : View ρ α := {}
  /-- The fetches in the order in which they were issued. -/
  fetches : List (Fetch ρ α) := []
  /-- The fetches whose results are kept back, in the order in which they ended. -/
  held : List Nat := []

namespace Feed

variable {ρ α : Type}

/-- Switches to a range; true if that issues a fetch. -/
def set [DecidableEq ρ] (f : Feed ρ α) (range : ρ) : Feed ρ α × Bool :=
  match f.view.set range with
  | (view, some generation) =>
    ({ f with view, fetches := f.fetches ++ [⟨range, generation, .waiting⟩] }, true)
  | (view, none) => ({ f with view }, false)

def clear (f : Feed ρ α) : Feed ρ α :=
  { f with view := f.view.clear }

def isWaiting (f : Feed ρ α) (id : Nat) : Bool :=
  match f.fetches[id]? with
  | some ⟨_, _, .waiting⟩ => true
  | _ => false

/-- Moves a fetch to a stage. -/
def mark (f : Feed ρ α) (id : Nat) (stage : Stage α) : Feed ρ α :=
  { f with fetches := f.fetches.modify id fun fetch => { fetch with stage } }

/-- Ends a fetch with a result that is kept back; true if the fetch was on its way. -/
def finish (f : Feed ρ α) (id : Nat) (result : Except FetchError α) : Feed ρ α × Bool :=
  if f.isWaiting id then ({ f.mark id (.held result) with held := f.held ++ [id] }, true)
  else (f, false)

/-- Ends a fetch without a result; true if the fetch was on its way. -/
def crash (f : Feed ρ α) (id : Nat) : Feed ρ α × Bool :=
  if f.isWaiting id then (f.mark id .lost, true) else (f, false)

/-- Gives the view a result that was kept back. -/
def deliverOne (f : Feed ρ α) (id : Nat) : Feed ρ α :=
  match f.fetches[id]? with
  | some ⟨_, generation, .held result⟩ =>
    { f.mark id (.delivered result) with view := f.view.publish generation result }
  | _ => f

/-- Gives the view all results that were kept back, in the order in which the fetches ended. -/
def deliver (f : Feed ρ α) : Feed ρ α :=
  { f.held.foldl deliverOne f with held := [] }

/-- Ends all fetches that are on their way with a failure, after everything kept back. -/
def shutDown (f : Feed ρ α) (e : FetchError) : Feed ρ α :=
  ((List.range f.fetches.length).foldl (fun f id => (f.finish id (.error e)).1) f).deliver

end Feed

end Daybook
