import Daybook.Dashboard.Basic

/-! A dashboard at work. Fetches that it has issued start together and become requests, except those
whose range has no bounds; requests are answered in any order, and the answers reach the views
together. -/

namespace Daybook

/-- A request for the data of a pane. -/
structure PaneRequest where
  fetch : PaneFetch
  bounds : Bounds
  /-- What the source has answered, if it has. -/
  reply : Option (Except FetchError Chart) := none

def PaneRequest.isWaiting (r : PaneRequest) : Bool :=
  r.reply.isNone

structure Session where
  dashboard : Dashboard
  /-- Fetches that have not started yet. -/
  issued : List PaneFetch := []
  /-- The requests in the order in which they were made. -/
  requests : List PaneRequest := []
  /-- Answers that have not reached their views yet. -/
  answers : List (PaneFetch × Except FetchError Chart) := []

namespace Session

/-- Takes the outcome of a selection. A refused one leaves all as it is. -/
def take (s : Session) :
    Except RangeError (Dashboard × List PaneFetch) → Session × Except RangeError Unit
  | .ok (dashboard, fetches) => ({ s with dashboard, issued := s.issued ++ fetches }, .ok ())
  | .error e => (s, .error e)

def select (s : Session) (r : Range) : Session × Except RangeError Unit :=
  s.take (s.dashboard.select r)

def pick (s : Session) (start stop : Option Instant) : Session × Except RangeError Unit :=
  s.take (s.dashboard.pick start stop)

/-- Starts a fetch: it becomes a request, or fails at once. -/
def startOne (s : Session) (f : PaneFetch) : Session :=
  match f.range.bounds s.dashboard.zone with
  | .ok bounds => { s with requests := s.requests ++ [{ fetch := f, bounds }] }
  | .error e => { s with answers := s.answers ++ [(f, .error (.range e))] }

/-- Answers a request; true if it was waiting. -/
def answer (s : Session) (id : Nat) (result : Except FetchError Chart) : Session × Bool :=
  match s.requests[id]? with
  | some ⟨fetch, bounds, none⟩ =>
    ({ s with
      requests := s.requests.set id ⟨fetch, bounds, some result⟩
      answers := s.answers ++ [(fetch, result)] }, true)
  | _ => (s, false)

/-- Lets all answers reach their views. -/
def deliver (s : Session) : Session :=
  { s with
    dashboard := s.answers.foldl (fun d (fetch, result) => d.publish fetch result) s.dashboard
    answers := [] }

/-- Starts all issued fetches, in order, and delivers all answers. -/
def run (s : Session) : Session :=
  ((s.issued.foldl startOne { s with issued := [] })).deliver

/-- The requests that wait for an answer, with their numbers. -/
def waiting (s : Session) : List (Nat × PaneRequest) :=
  (s.requests.zipIdx.filter (·.1.isWaiting)).map fun (request, id) => (id, request)

end Session

end Daybook
