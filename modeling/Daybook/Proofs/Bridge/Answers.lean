import Daybook.Bridge.Answer
import Daybook.Proofs.Json.RoundTrip

/-! # Answers of the bridge

Every request is answered, whatever its method, path and query and whatever is in the table. A request
runs one query on the table at most, and a query that the columns do not bear fails like one without a
table. The status of an answer and the envelope in its body say the same: there is success in the
envelope just if the status is 200. -/

namespace Daybook

open Http Json

/-! ## Envelopes in bodies -/

namespace Envelope

/-- The value of `ok` in a text that holds one object with just one such member. -/
def okay? (text : String) : Option Bool :=
  match Reading.ofText text.toList with
  | (.object members true, true) =>
    match members.filter (·.1 = some "ok") with
    | [(_, .bool okay)] => some okay
    | _ => none
  | _ => none

theorem okay?_success (data : Json) : okay? (success data).text = some true := by
  rw [okay?, ofText_text]
  rfl

theorem okay?_failure (code : String) : okay? (failure code).text = some false := by
  rw [okay?, ofText_text]
  rfl

end Envelope

namespace Bridge

/-- The paths that the bridge knows. -/
def paths : List String :=
  ["/health", "/select", "/duration_by_exe", "/active_dates", "/config"]

theorem isSome_ofPath?_iff {path : String} : (Route.ofPath? path).isSome ↔ path ∈ paths := by
  simp only [Route.ofPath?, paths]
  grind

theorem exists_route {path : String} (h : path ∈ paths) : ∃ route, Route.ofPath? path = some route :=
  Option.isSome_iff_exists.mp (isSome_ofPath?_iff.mpr h)

/-! ## What a query text asks for -/

/-- A bound in a query text: none if it cannot be read, and `some none` if it is not there. -/
def bound? (key : String) (query : List Char) : Option (Option Int) :=
  Form.number? limit64 key (Form.pairs query)

/-- The offset in a query text: none if it cannot be read, and `some none` if it is not there. -/
def offset? (query : List Char) : Option (Option Int) :=
  Form.number? limit32 "tz_offset_minutes" (Form.pairs query)

/-- The query text asks for bounds, and they are in order. -/
structure AsksFor (query : List Char) (bounds : Bounds) : Prop where
  lower_eq : bound? "from" query = some (some bounds.lower)
  upper_eq : bound? "to" query = some (some bounds.upper)
  le : bounds.lower ≤ bounds.upper

/-- The routes that need bounds. -/
def Route.NeedsBounds (route : Route) : Prop :=
  route = select ∨ route = durationByExe

/-- The query text cannot be read for a route. -/
inductive Unreadable (query : List Char) : Route → Prop
  | lower {route : Route} (h : route.NeedsBounds) (hnone : bound? "from" query = none) :
      Unreadable query route
  | upper {route : Route} (h : route.NeedsBounds) (hnone : bound? "to" query = none) :
      Unreadable query route
  | offset (hnone : offset? query = none) : Unreadable query .activeDates

/-- What a query text asks of a bridge on a route. There may be nothing to find. -/
inductive Asks (query : List Char) : Route → (Bridge → Option Json) → Prop
  | health : Asks query .health fun _ => some healthJson
  | records {bounds : Bounds} (h : AsksFor query bounds) :
      Asks query .select fun b => (b.table.bind (Table.records? bounds)).map recordsJson
  | usages {bounds : Bounds} (h : AsksFor query bounds) :
      Asks query .durationByExe fun b => (b.table.bind (Table.usages? bounds)).map usagesJson
  | activeDays {minutes : Option Int} (h : offset? query = some minutes) :
      Asks query .activeDates fun b =>
        (b.table.bind (Table.activeDays? (clampMinutes (minutes.getD 0) * 60000))).map daysJson
  | config : Asks query .config fun b => some b.config.toJson

/-! ## Replies -/

/-- What one who gets a known path is told, and why. -/
inductive Reply (b : Bridge) (query : List Char) (route : Route) : Response → Prop
  | data {find : Bridge → Option Json} {value : Json} (hasks : Asks query route find)
      (hfind : find b = some value) :
      Reply b query route ⟨200, [anyOrigin], some (Envelope.success value).text⟩
  | dbError {find : Bridge → Option Json} (hasks : Asks query route find) (hfind : find b = none) :
      Reply b query route ⟨500, [anyOrigin], some (Envelope.failure "db_error").text⟩
  | invalidRange (hroute : route.NeedsBounds) (hread : ¬Unreadable query route)
      (hnone : ∀ bounds, ¬AsksFor query bounds) :
      Reply b query route ⟨400, [anyOrigin], some (Envelope.failure "invalid_range").text⟩
  | badQuery (h : Unreadable query route) : Reply b query route ⟨400, [anyOrigin], none⟩

/-- An answer whose body, if it has one, is an envelope that claims success just if the status does. -/
def Honest (response : Response) : Prop :=
  ∀ body ∈ response.body, Envelope.okay? body = some (decide (response.status = 200))

def Outcome.response (outcome : Outcome) : Response :=
  ⟨outcome.status, [anyOrigin], outcome.body⟩

/-- What one who asks for the head is told. -/
def withoutBody (response : Response) : Response :=
  ⟨response.status, response.headers, none⟩

section Outcomes

variable {b : Bridge} {query : List Char} {route : Route} {α : Type}

theorem Reply.honest {response : Response} (h : Reply b query route response) : Honest response := by
  intro body hbody
  cases h with
  | data =>
    cases hbody
    exact Envelope.okay?_success _
  | dbError =>
    cases hbody
    exact Envelope.okay?_failure _
  | invalidRange =>
    cases hbody
    exact Envelope.okay?_failure _
  | badQuery => contradiction

theorem reply_ofQuery {toJson : List α → Json} {find : Bridge → Option (List α)}
    (hasks : Asks query route fun b => (find b).map toJson) :
    Reply b query route (ofQuery toJson (find b)).response := by
  cases hfind : find b with
  | none => exact .dbError hasks (by rw [hfind]; rfl)
  | some rows => exact .data hasks (by rw [hfind]; rfl)

section WithBounds

variable {bounds : Bounds} {answer : Bounds → Outcome}

theorem withBounds_of_asksFor (h : AsksFor query bounds) :
    withBounds query answer = answer bounds := by
  have hlower := h.lower_eq
  have hupper := h.upper_eq
  rw [bound?] at hlower hupper
  simp only [withBounds, hlower, hupper, if_pos h.le]

theorem withBounds_of_unreadable (hroute : route.NeedsBounds) (h : Unreadable query route) :
    withBounds query answer = .badQuery := by
  cases h with
  | lower _ hlower =>
    rw [bound?] at hlower
    simp only [withBounds, hlower]
  | upper _ hupper =>
    rw [bound?] at hupper
    simp only [withBounds, hupper]
    cases Form.number? limit64 "from" (Form.pairs query) with
    | none => rfl
    | some lower => cases lower <;> rfl
  | offset _ => rcases hroute with hroute | hroute <;> contradiction

theorem withBounds_of_readable (hroute : route.NeedsBounds) (hread : ¬Unreadable query route)
    (hnone : ∀ bounds, ¬AsksFor query bounds) : withBounds query answer = .invalidRange := by
  obtain ⟨lower, hlower⟩ := Option.ne_none_iff_exists'.mp fun h => hread (.lower hroute h)
  obtain ⟨upper, hupper⟩ := Option.ne_none_iff_exists'.mp fun h => hread (.upper hroute h)
  -- If both bounds are there, they are not in order, or the text would ask for them.
  have hlt : ∀ l ∈ lower, ∀ u ∈ upper, ¬l ≤ u := by
    rintro l rfl u rfl hle
    exact hnone ⟨l, u⟩ ⟨hlower, hupper, hle⟩
  rw [bound?] at hlower hupper
  simp only [withBounds, hlower, hupper]
  match lower, upper with
  | none, _ => rfl
  | some _, none => rfl
  | some l, some u => exact if_neg (hlt l rfl u rfl)

theorem reply_withBounds (hroute : route.NeedsBounds)
    (h : ∀ bounds, AsksFor query bounds → Reply b query route (answer bounds).response) :
    Reply b query route (withBounds query answer).response := by
  by_cases hread : Unreadable query route
  · rw [withBounds_of_unreadable hroute hread]
    exact .badQuery hread
  by_cases hasks : ∃ bounds, AsksFor query bounds
  · obtain ⟨bounds, hbounds⟩ := hasks
    rw [withBounds_of_asksFor hbounds]
    exact h bounds hbounds
  · rw [not_exists] at hasks
    rw [withBounds_of_readable hroute hread hasks]
    exact .invalidRange hroute hread hasks

end WithBounds

theorem reply_outcome (b : Bridge) (query : List Char) (route : Route) :
    Reply b query route (b.outcome query route).response := by
  cases route with
  | health => exact .data .health rfl
  | select => exact reply_withBounds (.inl rfl) fun bounds h => reply_ofQuery (.records h)
  | durationByExe => exact reply_withBounds (.inr rfl) fun bounds h => reply_ofQuery (.usages h)
  | activeDates =>
    cases hoffset : offset? query with
    | none =>
      have hbad : b.outcome query .activeDates = .badQuery := by
        rw [offset?] at hoffset
        simp only [outcome, hoffset]
      rw [hbad]
      exact .badQuery (.offset hoffset)
    | some minutes =>
      have hread := reply_ofQuery (b := b) (.activeDays hoffset)
      rw [offset?] at hoffset
      simpa only [outcome, hoffset] using hread
  | config => exact .data .config rfl

end Outcomes

/-! ## Answers by method and path -/

variable {b : Bridge} {r : Request}

theorem answer_options (h : r.method = "OPTIONS") :
    b.answer r = preflight (Route.ofPath? r.target.path).isSome :=
  if_pos h

theorem answer_unknown (hmethod : r.method ≠ "OPTIONS") (hpath : r.target.path ∉ paths) :
    b.answer r = ⟨404, [anyOrigin], none⟩ := by
  have hnone : Route.ofPath? r.target.path = none := by
    rwa [← isSome_ofPath?_iff, Option.not_isSome_iff_eq_none] at hpath
  simp only [answer, if_neg hmethod, hnone]

theorem answer_get_of_route {route : Route} (hroute : Route.ofPath? r.target.path = some route)
    (hmethod : r.method = "GET") : b.answer r = (b.outcome r.target.query route).response := by
  simp [answer, Outcome.response, hroute, hmethod]

theorem answer_head_of_route {route : Route} (hroute : Route.ofPath? r.target.path = some route)
    (hmethod : r.method = "HEAD") :
    b.answer r = withoutBody (b.outcome r.target.query route).response := by
  simp [answer, withoutBody, Outcome.response, hroute, hmethod]

theorem answer_other (hpath : r.target.path ∈ paths)
    (hmethod : r.method ∉ ["GET", "HEAD", "OPTIONS"]) :
    b.answer r = ⟨405, [anyOrigin, allowHeader], none⟩ := by
  obtain ⟨route, hroute⟩ := exists_route hpath
  simp only [List.mem_cons, List.not_mem_nil, or_false, not_or] at hmethod
  simp [answer, hroute, hmethod]

/-- How a request is answered, by its method and its path. -/
inductive Answered (b : Bridge) (r : Request) : Response → Prop
  | permitted (hmethod : r.method = "OPTIONS") (known : Bool) : Answered b r (preflight known)
  | notFound (hmethod : r.method ≠ "OPTIONS") (hpath : r.target.path ∉ paths) :
      Answered b r ⟨404, [anyOrigin], none⟩
  | got {route : Route} {response : Response} (hroute : Route.ofPath? r.target.path = some route)
      (hmethod : r.method = "GET") (h : Reply b r.target.query route response) :
      Answered b r response
  | headed {route : Route} {response : Response} (hroute : Route.ofPath? r.target.path = some route)
      (hmethod : r.method = "HEAD") (h : Reply b r.target.query route response) :
      Answered b r (withoutBody response)
  | notAllowed (hpath : r.target.path ∈ paths) (hmethod : r.method ∉ ["GET", "HEAD", "OPTIONS"]) :
      Answered b r ⟨405, [anyOrigin, allowHeader], none⟩

theorem answered_answer (b : Bridge) (r : Request) : Answered b r (b.answer r) := by
  by_cases hoptions : r.method = "OPTIONS"
  · rw [answer_options hoptions]
    exact .permitted hoptions _
  by_cases hpath : r.target.path ∈ paths
  · obtain ⟨route, hroute⟩ := exists_route hpath
    have hreply := reply_outcome b r.target.query route
    by_cases hget : r.method = "GET"
    · rw [answer_get_of_route hroute hget]
      exact .got hroute hget hreply
    by_cases hhead : r.method = "HEAD"
    · rw [answer_head_of_route hroute hhead]
      exact .headed hroute hhead hreply
    · have hother : r.method ∉ ["GET", "HEAD", "OPTIONS"] := by simp [hget, hhead, hoptions]
      rw [answer_other hpath hother]
      exact .notAllowed hpath hother
  · rw [answer_unknown hoptions hpath]
    exact .notFound hoptions hpath

/-- The headers that say which origins may read an answer. -/
def originHeaders (response : Response) : List (String × String) :=
  response.headers.filter (·.1 = "access-control-allow-origin")

theorem Answered.originHeaders_eq {response : Response} (h : Answered b r response) :
    originHeaders response = [("access-control-allow-origin", "*")] := by
  cases h with
  | permitted hmethod known => cases known <;> rfl
  | notFound hmethod hpath => rfl
  | got hroute hmethod h => cases h <;> rfl
  | headed hroute hmethod h => cases h <;> rfl
  | notAllowed hpath hmethod => rfl

theorem Answered.honest {response : Response} (h : Answered b r response) : Honest response := by
  cases h with
  | got hroute hmethod h => exact h.honest
  | _ => exact fun body hbody => by contradiction

/-- A head is what the answer to a get would be, without the body. -/
theorem answer_head_eq (b : Bridge) (h : r.method = "HEAD") :
    b.answer r = withoutBody (b.answer ⟨"GET", r.target⟩) := by
  by_cases hpath : r.target.path ∈ paths
  · obtain ⟨route, hroute⟩ := exists_route hpath
    rw [answer_head_of_route hroute h, answer_get_of_route (r := ⟨"GET", r.target⟩) hroute rfl]
  · have hget : (⟨"GET", r.target⟩ : Request).method ≠ "OPTIONS" := by simp
    rw [answer_unknown (by simp [h]) hpath, answer_unknown hget hpath]
    rfl

/-- Whatever is in the table and whatever the request: the answer may be read from any origin. A question
for permission is granted on every path. Of other requests those about unknown paths and those with
other methods than a get or a head are refused. One who gets a known path is told data or why there
is none, and no body says the opposite of the status. A head has the status and the headers of a get,
and no body. -/
theorem answer_fits_request (b : Bridge) (r : Request) :
    let response := b.answer r
    originHeaders response = [("access-control-allow-origin", "*")] ∧
    (r.method = "OPTIONS" → response.status = 200) ∧
    (r.method ≠ "OPTIONS" → r.target.path ∉ paths → response.status = 404) ∧
    (r.target.path ∈ paths → r.method ∉ ["GET", "HEAD", "OPTIONS"] → response.status = 405) ∧
    (r.target.path ∈ paths → r.method = "GET" →
      ∃ route, Route.ofPath? r.target.path = some route ∧
        Reply b r.target.query route response) ∧
    Honest response ∧
    (r.method = "HEAD" → response = withoutBody (b.answer ⟨"GET", r.target⟩)) := by
  have h := answered_answer b r
  refine ⟨h.originHeaders_eq, fun hmethod => ?_, fun hmethod hpath => ?_, fun hpath hmethod => ?_,
    fun hpath hmethod => ?_, h.honest, b.answer_head_eq⟩
  · rw [answer_options hmethod]
    rfl
  · rw [answer_unknown hmethod hpath]
  · rw [answer_other hpath hmethod]
  · obtain ⟨route, hroute⟩ := exists_route hpath
    rw [answer_get_of_route hroute hmethod]
    exact ⟨route, hroute, reply_outcome b r.target.query route⟩

end Bridge

end Daybook
