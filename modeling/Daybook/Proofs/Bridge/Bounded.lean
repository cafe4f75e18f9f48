import Daybook.Proofs.Bridge.Answers
import Daybook.Proofs.Http.Spelling

/-! # Answers to questions for a range

The bridge reads the bounds of a range off the values of two keys. Other keys, the order of the pairs and
the way in which they are spelled make no difference. -/

namespace Daybook.Bridge

open Http Form

variable {b : Bridge} {r : Request} {route : Route} {query query' : List Char}
  {members others : List (Octets × Octets)} {answer : Bounds → Outcome}

/-! ## Bounds in a query -/

theorem bound?_eq (h : Spells query members) (key : String) :
    bound? key query = number? limit64 key members := by
  rw [bound?, pairs_eq_iff.mpr h]

/-- Only the values of the two keys matter. -/
theorem withBounds_congr (h : Spells query members) (h' : Spells query' others)
    (hlower : (values "from" others).Perm (values "from" members))
    (hupper : (values "to" others).Perm (values "to" members)) :
    withBounds query' answer = withBounds query answer := by
  have hfrom : bound? "from" query' = bound? "from" query := by
    rw [bound?_eq h, bound?_eq h', number?_congr hlower]
  have hto : bound? "to" query' = bound? "to" query := by
    rw [bound?_eq h, bound?_eq h', number?_congr hupper]
  simp only [bound?] at hfrom hto
  simp only [withBounds, hfrom, hto]

theorem withBounds_of_unusable (h : Spells query members)
    (hunusable : Unusable limit64 (values "from" members) ∨
      Unusable limit64 (values "to" members)) :
    withBounds query answer = .badQuery := by
  have hneeds : Route.select.NeedsBounds := .inl rfl
  rcases hunusable with hlower | hupper
  · exact withBounds_of_unreadable hneeds
      (.lower hneeds ((bound?_eq h "from").trans (number?_of_unusable hlower)))
  · exact withBounds_of_unreadable hneeds
      (.upper hneeds ((bound?_eq h "to").trans (number?_of_unusable hupper)))

theorem withBounds_of_gives {lower upper : Int} (h : Spells query members)
    (hlower : Gives limit64 "from" members lower) (hupper : Gives limit64 "to" members upper) :
    withBounds query answer =
      if lower ≤ upper then answer ⟨lower, upper⟩ else .invalidRange := by
  have hfrom := (bound?_eq h "from").trans (number?_of_gives hlower)
  have hto := (bound?_eq h "to").trans (number?_of_gives hupper)
  simp only [bound?] at hfrom hto
  simp only [withBounds, hfrom, hto]

theorem exists_bound {key : String} (h : Spells query members)
    (husable : ¬Unusable limit64 (values key members)) :
    ∃ bound, bound? key query = some bound ∧ (values key members = [] → bound = none) := by
  rw [bound?_eq h]
  rcases values_cases limit64 key members with hnil | ⟨n, hn⟩ | hunusable
  · exact ⟨none, number?_of_values_nil hnil, fun _ => rfl⟩
  · refine ⟨some n, number?_of_gives hn, fun hnil => ?_⟩
    obtain ⟨value, hvalues, -⟩ := hn
    simp [hvalues] at hnil
  · exact absurd hunusable husable

/-- Of two keys that can be read, one does not come. -/
theorem withBounds_of_values_nil (h : Spells query members)
    (hlower : ¬Unusable limit64 (values "from" members))
    (hupper : ¬Unusable limit64 (values "to" members))
    (hnil : values "from" members = [] ∨ values "to" members = []) :
    withBounds query answer = .invalidRange := by
  obtain ⟨lower, hfrom, hlowerNil⟩ := exists_bound h hlower
  obtain ⟨upper, hto, hupperNil⟩ := exists_bound h hupper
  simp only [bound?] at hfrom hto
  simp only [withBounds, hfrom, hto]
  cases lower with
  | none => rfl
  | some lower =>
    cases upper with
    | none => rfl
    | some upper =>
      rcases hnil with hnil | hnil
      · exact absurd (hlowerNil hnil) (Option.some_ne_none _)
      · exact absurd (hupperNil hnil) (Option.some_ne_none _)

/-! ## Answers -/

/-- What a bridge finds between two bounds, by the path of the request. -/
def findWithin (b : Bridge) (path : String) (bounds : Bounds) : Outcome :=
  if path = "/select" then ofQuery recordsJson (b.table.bind (Table.records? bounds))
  else ofQuery usagesJson (b.table.bind (Table.usages? bounds))

section Get

variable (hmethod : r.method = "GET")
  (hpath : r.target.path = "/select" ∨ r.target.path = "/duration_by_exe")

include hmethod hpath

theorem answer_eq_withBounds (b : Bridge) :
    b.answer r = (withBounds r.target.query (b.findWithin r.target.path)).response := by
  rcases hpath with hpath | hpath
  · have hroute : Route.ofPath? r.target.path = some .select := by
      rw [hpath]
      rfl
    rw [answer_get_of_route hroute hmethod, hpath]
    rfl
  · have hroute : Route.ofPath? r.target.path = some .durationByExe := by
      rw [hpath]
      rfl
    rw [answer_get_of_route hroute hmethod, hpath]
    rfl

theorem answer_congr (h : Spells r.target.query members) (h' : Spells query' others)
    (hlower : (values "from" others).Perm (values "from" members))
    (hupper : (values "to" others).Perm (values "to" members)) (b : Bridge) :
    b.answer ⟨r.method, ⟨r.target.path, query'⟩⟩ = b.answer r := by
  have hother : b.answer ⟨r.method, ⟨r.target.path, query'⟩⟩ =
      (withBounds query' (b.findWithin r.target.path)).response :=
    answer_eq_withBounds (r := ⟨r.method, ⟨r.target.path, query'⟩⟩) hmethod hpath b
  rw [answer_eq_withBounds hmethod hpath, hother, withBounds_congr h h' hlower hupper]

/-- Whatever pairs a query spells and however it spells them, the answer depends only on the values of
`from` and `to`. It stays the same if the pairs are put in another order, and if pairs with other keys
come or go. A key that comes twice or with a value that is no number of 64 bits is refused without a
body. Of other queries those are refused as ranges in which a bound is missing or the bounds are not in
order, and the rest get what is found between the two numbers. -/
theorem answer_depends_on_bounds (h : Spells r.target.query members) (b : Bridge) :
    let response := b.answer r
    (∀ query others, Spells query others → (values "from" others).Perm (values "from" members) →
      (values "to" others).Perm (values "to" members) →
      b.answer ⟨r.method, ⟨r.target.path, query⟩⟩ = response) ∧
    (∀ query others, Spells query others → others.Perm members →
      b.answer ⟨r.method, ⟨r.target.path, query⟩⟩ = response) ∧
    (∀ query front key value rest, members = front ++ rest → key ≠ octetsOf "from".toList →
      key ≠ octetsOf "to".toList → Spells query (front ++ (key, value) :: rest) →
      b.answer ⟨r.method, ⟨r.target.path, query⟩⟩ = response) ∧
    (Unusable limit64 (values "from" members) ∨ Unusable limit64 (values "to" members) →
      response = ⟨400, [anyOrigin], none⟩) ∧
    (¬Unusable limit64 (values "from" members) → ¬Unusable limit64 (values "to" members) →
      (values "from" members = [] ∨ values "to" members = [] ∨
        ∃ lower upper, Gives limit64 "from" members lower ∧ Gives limit64 "to" members upper ∧
          upper < lower) →
      response = ⟨400, [anyOrigin], some (Envelope.failure "invalid_range").text⟩) ∧
    ∀ lower upper, Gives limit64 "from" members lower → Gives limit64 "to" members upper →
      lower ≤ upper →
      (r.target.path = "/select" →
        response = (ofQuery recordsJson (b.table.bind (Table.records? ⟨lower, upper⟩))).response) ∧
      (r.target.path = "/duration_by_exe" →
        response = (ofQuery usagesJson (b.table.bind (Table.usages? ⟨lower, upper⟩))).response) := by
  intro response
  have hresponse : response = (withBounds r.target.query (b.findWithin r.target.path)).response :=
    answer_eq_withBounds hmethod hpath b
  refine ⟨fun query others h' hlower hupper => answer_congr hmethod hpath h h' hlower hupper b,
    fun query others h' hperm => ?_, fun query front key value rest hmembers hfrom hto h' => ?_,
    fun hunusable => ?_, fun hlower hupper hinvalid => ?_, fun lower upper hlower hupper hle => ?_⟩
  · exact answer_congr hmethod hpath h h' ((hperm.filter _).map _) ((hperm.filter _).map _) b
  · subst hmembers
    exact answer_congr hmethod hpath h h' (.of_eq (values_append_cons hfrom front rest))
      (.of_eq (values_append_cons hto front rest)) b
  · rw [hresponse, withBounds_of_unusable h hunusable]
    rfl
  · rw [hresponse]
    rcases hinvalid with hnil | hnil | ⟨lower, upper, hl, hu, hlt⟩
    · rw [withBounds_of_values_nil h hlower hupper (.inl hnil)]
      rfl
    · rw [withBounds_of_values_nil h hlower hupper (.inr hnil)]
      rfl
    · rw [withBounds_of_gives h hl hu, if_neg (Int.not_le.mpr hlt)]
      rfl
  · rw [hresponse, withBounds_of_gives h hlower hupper, if_pos hle]
    constructor
    · intro hselect
      rw [findWithin, if_pos hselect]
    · intro husages
      have hne : r.target.path ≠ "/select" := by simp [husages]
      rw [findWithin, if_neg hne]

end Get

/-- A query with escaped letters, a sign, an empty piece and a key that nobody knows. -/
theorem answer_depends_on_bounds_escaped :
    let b : Bridge := ⟨some [⟨.integer 50, .integer 60, .integer 1, .text "/bin/a", .text ""⟩], {}⟩
    let ask (query : String) : Request := ⟨"GET", ⟨"/select", query.toList⟩⟩
    let escaped := ask "to=1%300&&x+%=%2&fr%6Fm=%2b0"
    let members : List (Octets × Octets) := [(octetsOf "to".toList, octetsOf "100".toList),
      (octetsOf "x %".toList, octetsOf "%2".toList), (octetsOf "from".toList, octetsOf "+0".toList)]
    Request.ofLine? "/select?to=1%300&&x+%=%2&fr%6Fm=%2b0" = some escaped ∧
    Spells escaped.target.query members ∧
    b.answer (ask "from=%2B0&to=100") = b.answer escaped ∧
    b.answer escaped = (ofQuery recordsJson (b.table.bind (Table.records? ⟨0, 100⟩))).response ∧
    b.answer (ask "to=9&from=7&%66rom=7") = ⟨400, [anyOrigin], none⟩ ∧
    b.answer (ask "to=1&from=%31%30") =
      ⟨400, [anyOrigin], some (Envelope.failure "invalid_range").text⟩ := by
  intro b ask escaped members
  have hmembers : Spells escaped.target.query members := pairs_eq_iff.mp (by decide +kernel)
  have hplain : Spells "from=%2B0&to=100".toList [(octetsOf "from".toList, octetsOf "+0".toList),
      (octetsOf "to".toList, octetsOf "100".toList)] := pairs_eq_iff.mp (by decide +kernel)
  have htwice : Unusable limit64 (values "from" (pairs "to=9&from=7&%66rom=7".toList)) :=
    .twice (by decide +kernel)
  have hten : Gives limit64 "from" (pairs "to=1&from=%31%30".toList) 10 :=
    ⟨octetsOf "10".toList, by decide +kernel, readWithin?_eq_some_iff.mp (by decide +kernel)⟩
  have hone : Gives limit64 "to" (pairs "to=1&from=%31%30".toList) 1 :=
    ⟨octetsOf "1".toList, by decide +kernel, readWithin?_eq_some_iff.mp (by decide +kernel)⟩
  have hlower : Gives limit64 "from" members 0 :=
    ⟨octetsOf "+0".toList, by decide +kernel, readWithin?_eq_some_iff.mp (by decide +kernel)⟩
  have hupper : Gives limit64 "to" members 100 :=
    ⟨octetsOf "100".toList, by decide +kernel, readWithin?_eq_some_iff.mp (by decide +kernel)⟩
  have h := answer_depends_on_bounds (r := escaped) rfl (.inl rfl) hmembers b
  have h' := answer_depends_on_bounds (r := ask "to=9&from=7&%66rom=7") rfl (.inl rfl)
    (pairs_eq_iff.mp rfl) b
  have h'' := answer_depends_on_bounds (r := ask "to=1&from=%31%30") rfl (.inl rfl)
    (pairs_eq_iff.mp rfl) b
  refine ⟨by decide +kernel, hmembers, ?_, ?_, ?_, ?_⟩
  · exact h.1 _ _ hplain (by decide +kernel) (by decide +kernel)
  · exact (h.2.2.2.2.2 0 100 hlower hupper (by decide)).1 rfl
  · exact h'.2.2.2.1 (.inl htwice)
  · exact h''.2.2.2.2.1 hten.not_unusable hone.not_unusable
      (.inr (.inr ⟨10, 1, hten, hone, by decide⟩))

end Daybook.Bridge
