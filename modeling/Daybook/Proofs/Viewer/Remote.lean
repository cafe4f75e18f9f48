import Daybook.Proofs.Activity.Breakdown
import Daybook.Proofs.Bridge.Answers
import Daybook.Proofs.Http.Address
import Daybook.Proofs.Http.Query
import Daybook.Proofs.Wire.Config
import Daybook.Viewer.Remote

/-! # The bridge seen from afar

What a remote source gives is what the queries of the bridge find in its table, or the code of the
bridge's refusal, and never a reply that cannot be understood. -/

namespace Daybook

open Http Json

variable {host : String} {r : Remote} {bounds : Bounds}

/-! ## The request -/

namespace Http

theorem Url.IsClean.append {front rest : List Char} (hf : IsClean front) (hr : IsClean rest) :
    IsClean (front ++ rest) := by
  intro c hc
  rcases List.mem_append.mp hc with hc | hc
  · exact hf c hc
  · exact hr c hc

theorem Url.isClean_signed (n : Int) : IsClean (Text.signed n) :=
  Text.forall_mem_signed (by decide) (by decide) n

theorem Form.boundsText_eq (lower upper : Int) :
    boundsText lower upper =
      "from=".toList ++ (Text.signed lower ++ ("&to=".toList ++ Text.signed upper)) := by
  simp [boundsText, spell, List.intercalate_cons_cons]

theorem Form.isClean_boundsText (lower upper : Int) : Url.IsClean (boundsText lower upper) := by
  have hfrom : Url.IsClean "from=".toList := by simp [Url.IsClean, Url.isEscaped]
  have hto : Url.IsClean "&to=".toList := by simp [Url.IsClean, Url.isEscaped]
  rw [boundsText_eq]
  exact hfrom.append ((Url.isClean_signed lower).append (hto.append (Url.isClean_signed upper)))

theorem Form.isClean_offsetText (minutes : Int) : Url.IsClean (offsetText minutes) := by
  have hkey : Url.IsClean "tz_offset_minutes=".toList := by simp [Url.IsClean, Url.isEscaped]
  have heq : offsetText minutes = "tz_offset_minutes=".toList ++ Text.signed minutes := by
    simp [offsetText, spell]
  rw [heq]
  exact hkey.append (Url.isClean_signed minutes)

end Http

namespace Remote

/-- An address without a slash at its end is taken as it is. -/
theorem base_ofUrl (h : Url.IsHost host) (offsetMinutes : Int) :
    (ofUrl ("http://" ++ host) offsetMinutes).base = "http://" ++ host := by
  obtain ⟨c, front, hlast⟩ := List.exists_cons_of_ne_nil (List.reverse_ne_nil_iff.mpr h.ne_nil)
  have hc : c ≠ '/' := by
    have hmem : c ∈ host.toList := List.mem_reverse.mp (hlast ▸ List.mem_cons_self)
    exact (h.not_mem c hmem).1
  have hreverse : ("http://" ++ host).toList.reverse = c :: (front ++ "http://".toList.reverse) := by
    rw [String.toList_append, List.reverse_append, hlast, List.cons_append]
  have hdrop : ("http://" ++ host).toList.reverse.dropWhile (· = '/') =
      ("http://" ++ host).toList.reverse := by
    rw [hreverse, List.dropWhile_cons, if_neg (by simpa using hc)]
  simp only [ofUrl, hdrop, List.reverse_reverse, String.ofList_toList]

/-- The text of the query of a call. -/
def queryText (r : Remote) : Call → List Char
  | .records bounds => Form.boundsText bounds.lower bounds.upper
  | .usages bounds => Form.boundsText bounds.lower bounds.upper
  | .activeDays => Form.offsetText r.offsetMinutes
  | .config => []

theorem isClean_queryText (r : Remote) (call : Call) : Url.IsClean (r.queryText call) := by
  cases call with
  | records bounds => exact Form.isClean_boundsText _ _
  | usages bounds => exact Form.isClean_boundsText _ _
  | activeDays => exact Form.isClean_offsetText _
  | config => exact List.forall_mem_nil _

theorem exists_path (call : Call) :
    ∃ rest, call.path.toList = '/' :: rest ∧ Url.IsClean ('/' :: rest) ∧ '?' ∉ rest ∧ '/' ∉ rest := by
  cases call with
  | records _ =>
    exact ⟨"select".toList, by simp [Call.path], by simp [Url.IsClean, Url.isEscaped], by decide⟩
  | usages _ =>
    exact ⟨"duration_by_exe".toList, by simp [Call.path], by simp [Url.IsClean, Url.isEscaped],
      by decide⟩
  | activeDays =>
    exact ⟨"active_dates".toList, by simp [Call.path], by simp [Url.IsClean, Url.isEscaped],
      by decide⟩
  | config =>
    exact ⟨"config".toList, by simp [Call.path], by simp [Url.IsClean, Url.isEscaped], by decide⟩

/-- The address of a call on a base without a question mark. -/
theorem toList_url (hbase : '?' ∉ r.base.toList) (call : Call) :
    (r.url call).toList =
      r.base.toList ++ call.path.toList ++ Url.marked (r.queryText call) := by
  obtain ⟨rest, hpath, -, hrest, -⟩ := exists_path call
  have hmark : (r.base ++ call.path).toList.contains '?' = false := by
    rw [String.toList_append, hpath]
    simpa [hbase] using hrest
  rw [url, Url.withQuery, hmark]
  cases call <;> simp [query, boundsQuery, queryText, Form.boundsText, Form.offsetText, Form.spell,
    Url.marked]

/-- A call reaches the bridge as it was meant. -/
theorem network_url (b : Bridge) (hbase : r.base = "http://" ++ host) (hhost : Url.IsHost host)
    (call : Call) :
    b.network (r.url call) =
      let response := b.answer ⟨"GET", call.path, r.queryText call⟩
      .answered response.status (response.body.getD "") := by
  obtain ⟨rest, hpath, hclean, hrest, -⟩ := exists_path call
  have hquery := r.isClean_queryText call
  have hresource : Url.IsClean ('/' :: (rest ++ Url.marked (r.queryText call))) :=
    hclean.append (Url.isClean_marked hquery)
  have htarget : Target.ofResource ('/' :: rest ++ Url.marked (r.queryText call)) =
      ⟨call.path, r.queryText call⟩ := by
    -- The path has no question mark of its own, so the target splits where the query was put.
    rw [Target.ofResource_marked (List.cons_ne_nil _ _), ← hpath, String.ofList_toList]
    · intro c hc
      refine ⟨?_, (hclean c hc).2⟩
      rintro rfl
      simp [hrest] at hc
    · exact fun c hc => (hquery c hc).2
  have hmark : '?' ∉ r.base.toList := by
    have hname : '?' ∉ host.toList := fun h => (hhost.not_mem '?' h).2.1 rfl
    simpa [hbase] using hname
  have hurl : r.url call = String.ofList ("http://".toList ++
      (host.toList ++ '/' :: (rest ++ Url.marked (r.queryText call)))) := by
    rw [← String.toList_inj, toList_url hmark, hbase, hpath]
    simp
  rw [Bridge.network, hurl, Url.target?_eq hhost hresource]
  simp only [String.toList_ofList, ← List.cons_append, htarget]

/-! ## The answer -/

section Answers

variable {α : Type} {b : Bridge}

/-- What a client gets that asks for what a query finds. -/
def found : Option α → Except FetchError α
  | some value => .ok value
  | none => .error (.refused "db_error")

/-- What a client gets that asks for what lies in bounds. -/
def foundWithin (bounds : Bounds) (value : Option α) : Except FetchError α :=
  if bounds.lower ≤ bounds.upper then found value else .error (.refused "invalid_range")

theorem ask_eq (hbase : r.base = "http://" ++ host) (hhost : Url.IsHost host) (call : Call)
    {route : Bridge.Route} (hroute : Bridge.Route.ofPath? call.path = some route)
    (d : Decoder RowError α) :
    r.ask b.network call d =
      let outcome := b.outcome (r.queryText call) route
      Envelope.openAnswer d outcome.status (outcome.body.getD "").toUTF8 := by
  rw [ask, network_url b hbase hhost call, Bridge.answer_get_of_route hroute rfl]
  rfl

/-- The rows that a query finds come through to the client, and so does its failure. -/
theorem openAnswer_ofQuery {d : Decoder RowError α} {toJson : α → Json} {need : Nat}
    (hd : d.Inverts toJson need) (hneed : need ≤ 1) (rows : Option (List α)) :
    let outcome := Bridge.ofQuery (fun rows => .array (rows.map toJson)) rows
    Envelope.openAnswer d.list outcome.status (outcome.body.getD "").toUTF8 = found rows := by
  cases rows with
  | none =>
    have hstatus : 300 ≤ Bridge.Outcome.dbError.status := by decide
    exact Envelope.openAnswer_failure _ (.inr hstatus) _
  | some rows =>
    have hroom : need + 1 ≤ Decoder.roomiest - 1 := Nat.le_trans (Nat.succ_le_succ hneed) (by decide)
    exact Envelope.openAnswer_success (fun h => Json.noConfusion h) (hd.list rows _ hroom)

/-- Bounds come through to the bridge, which refuses those that are not in order. -/
theorem withBounds_boundsText (hl : Within limit64 bounds.lower) (hu : Within limit64 bounds.upper)
    (answer : Bounds → Bridge.Outcome) :
    Bridge.withBounds (Form.boundsText bounds.lower bounds.upper) answer =
      if bounds.lower ≤ bounds.upper then answer bounds else .invalidRange := by
  obtain ⟨hfrom, hto⟩ := Form.number?_boundsText hl hu
  simp only [Bridge.withBounds, hfrom, hto]

theorem openAnswer_withBounds {d : Decoder RowError α} {toJson : α → Json} {need : Nat}
    (hd : d.Inverts toJson need) (hneed : need ≤ 1) (hl : Within limit64 bounds.lower)
    (hu : Within limit64 bounds.upper) (rows : Bounds → Option (List α)) :
    let outcome := Bridge.withBounds (Form.boundsText bounds.lower bounds.upper) fun bounds =>
      Bridge.ofQuery (fun rows => .array (rows.map toJson)) (rows bounds)
    Envelope.openAnswer d.list outcome.status (outcome.body.getD "").toUTF8 =
      foundWithin bounds (rows bounds) := by
  rw [withBounds_boundsText hl hu, foundWithin]
  split
  · exact openAnswer_ofQuery hd hneed _
  · exact Envelope.openAnswer_failure _ (.inr (by decide)) _

variable (hbase : r.base = "http://" ++ host) (hhost : Url.IsHost host)

include hbase hhost

theorem records_eq (hl : Within limit64 bounds.lower) (hu : Within limit64 bounds.upper) :
    (r.source b.network).records bounds =
      foundWithin bounds (b.table.bind (Table.records? bounds)) :=
  (ask_eq hbase hhost (.records bounds) rfl _).trans
    (openAnswer_withBounds Record.inverts_decode (Nat.le_refl 1) hl hu fun bounds =>
      b.table.bind (Table.records? bounds))

theorem usages_eq (hl : Within limit64 bounds.lower) (hu : Within limit64 bounds.upper) :
    (r.source b.network).usages bounds =
      foundWithin bounds (b.table.bind (Table.usages? bounds)) :=
  (ask_eq hbase hhost (.usages bounds) rfl _).trans
    (openAnswer_withBounds Usage.inverts_decode (Nat.le_refl 1) hl hu fun bounds =>
      b.table.bind (Table.usages? bounds))

theorem config_eq : (r.source b.network).config = .ok b.config :=
  (ask_eq hbase hhost .config rfl _).trans
    (Envelope.openAnswer_success (fun h => Json.noConfusion h)
      (Config.inverts_decode b.config _ (by decide)))

theorem activeDays_eq (hr : Within limit32 r.offsetMinutes) :
    (r.source b.network).activeDays = sortDays <$>
      found (b.table.bind (Table.activeDays? (Bridge.clampMinutes r.offsetMinutes * 60000))) := by
  have hask := ask_eq (b := b) hbase hhost .activeDays rfl (.list .int64)
  have houtcome : b.outcome (r.queryText .activeDays) .activeDates =
      Bridge.ofQuery Bridge.daysJson (b.table.bind
        (Table.activeDays? (Bridge.clampMinutes r.offsetMinutes * 60000))) := by
    simp only [Bridge.outcome, queryText, Form.number?_offsetText hr, Option.getD_some]
  rw [houtcome] at hask
  have h := openAnswer_ofQuery Decoder.inverts_int64 (Nat.zero_le 1) (b.table.bind
        (Table.activeDays? (Bridge.clampMinutes r.offsetMinutes * 60000)))
  rw [source, hask]
  exact congrArg (sortDays <$> ·) h

end Answers

/-- The bounds are in order and can be told to the bridge. -/
structure Sendable (bounds : Bounds) : Prop where
  lower : Within limit64 bounds.lower
  upper : Within limit64 bounds.upper
  le : bounds.lower ≤ bounds.upper

theorem usages_source {b : Bridge} {usages : List Usage} (hbase : r.base = "http://" ++ host)
    (hhost : Url.IsHost host) (h : Sendable bounds)
    (htable : b.table.bind (Table.usages? bounds) = some usages) :
    (r.source b.network).usages bounds = .ok usages := by
  rw [usages_eq hbase hhost h.lower h.upper, foundWithin, if_pos h.le, htable]
  rfl

theorem records_source {b : Bridge} {records : List Record} (hbase : r.base = "http://" ++ host)
    (hhost : Url.IsHost host) (h : Sendable bounds)
    (htable : b.table.bind (Table.records? bounds) = some records) :
    (r.source b.network).records bounds = .ok records := by
  rw [records_eq hbase hhost h.lower h.upper, foundWithin, if_pos h.le, htable]
  rfl

/-! ## Active days -/

/-- The same days, in ascending order and each once. -/
structure Ascending (ordered days : List Int64) : Prop where
  pairwise : ordered.Pairwise (· < ·)
  mem_iff : ∀ day, day ∈ ordered ↔ day ∈ days

theorem ascending_sortDays (days : List Int64) : Ascending (sortDays days) days := by
  refine ⟨pairwise_lt_mergeSort_eraseDups days, fun day => ?_⟩
  rw [sortDays, (List.mergeSort_perm _ _).mem_iff, List.mem_eraseDups]

theorem within_clampMinutes (minutes : Int) : Within limit32 (Bridge.clampMinutes minutes) := by
  simp only [Within, limit32, Bridge.clampMinutes]
  omega

theorem clampMinutes_clampMinutes (minutes : Int) :
    Bridge.clampMinutes (Bridge.clampMinutes minutes) = Bridge.clampMinutes minutes := by
  simp only [Bridge.clampMinutes]
  omega

/-! ## All answers -/

/-- Whatever the bridge has, a source on its network gives for all calls: the rows that a query finds in
their order, the set of active days, the configuration, or the code of a refusal. -/
theorem source_reads_bridge (hhost : Url.IsHost host) (offsetMinutes : Int) (b : Bridge) :
    let source := (ofUrl ("http://" ++ host) offsetMinutes).source b.network
    (∀ lower upper : Int64,
      let bounds : Bounds := ⟨lower.toInt, upper.toInt⟩
      source.records bounds = foundWithin bounds (b.table.bind (Table.records? bounds)) ∧
        source.usages bounds = foundWithin bounds (b.table.bind (Table.usages? bounds))) ∧
    (match b.table.bind (Table.activeDays? (Bridge.clampMinutes offsetMinutes * 60000)) with
      | some days => ∃ ordered, source.activeDays = .ok ordered ∧ Ascending ordered days
      | none => source.activeDays = .error (.refused "db_error")) ∧
    source.config = .ok b.config := by
  have hbase := base_ofUrl hhost offsetMinutes
  refine ⟨fun lower upper => ?_, ?_, config_eq hbase hhost⟩
  · have hl := within_toInt lower
    have hu := within_toInt upper
    exact ⟨records_eq hbase hhost hl hu, usages_eq hbase hhost hl hu⟩
  · have hdays := activeDays_eq (b := b) hbase hhost (within_clampMinutes offsetMinutes)
    -- The offset is clamped where it is sent and again where it is read.
    simp only [ofUrl, clampMinutes_clampMinutes] at hdays
    split
    · next days heq =>
      rw [heq] at hdays
      exact ⟨sortDays days, hdays, ascending_sortDays days⟩
    · next heq =>
      rw [heq] at hdays
      exact hdays

/-- A row with marks that are escaped on the wire, and one whose end is no number. -/
def oddRows : List Table.Row :=
  [⟨.integer (-5), .integer 10, .integer 7, .text "C:\\a \"b\"", .text "\x01😀"⟩,
    ⟨.integer 3, .text "late", .null, .text "/bin/sh", .text ""⟩]

theorem source_reads_bridge_with_odd_rows :
    let b : Bridge := ⟨some oddRows, { blacklist := ["\"\\\n"], location := none }⟩
    let source := (ofUrl ("http://" ++ "127.0.0.1:17700") 600).source b.network
    Url.IsHost "127.0.0.1:17700" ∧
    source.records ⟨-5, 3⟩ = .ok [⟨-5, 10, 7, "C:\\a \"b\"", "\x01😀"⟩] ∧
    source.usages ⟨-5, 3⟩ = .ok [⟨"C:\\a \"b\"", 15⟩] ∧
    source.records ⟨-5, 4⟩ = .error (.refused "db_error") ∧
    source.usages ⟨3, -5⟩ = .error (.refused "invalid_range") ∧
    (∃ days, source.activeDays = .ok days ∧ Ascending days [-36000000]) ∧
    source.config = .ok { blacklist := ["\"\\\n"], location := none } := by
  intro b source
  have hhost : Url.IsHost "127.0.0.1:17700" := ⟨by simp, by simp⟩
  have hrecords : b.table.bind (Table.records? ⟨-5, 3⟩) =
      some [⟨-5, 10, 7, "C:\\a \"b\"", "\x01😀"⟩] := by
    decide +kernel
  have husages : b.table.bind (Table.usages? ⟨-5, 3⟩) = some [⟨"C:\\a \"b\"", 15⟩] := by
    decide +kernel
  have hlate : b.table.bind (Table.records? ⟨-5, 4⟩) = none := by
    decide +kernel
  have hactive : b.table.bind (Table.activeDays? (Bridge.clampMinutes 600 * 60000)) =
      some [-36000000] := by
    decide +kernel
  obtain ⟨hrows, hdays, hconfig⟩ := source_reads_bridge hhost 600 b
  rw [hactive] at hdays
  refine ⟨hhost, (hrows (-5) 3).1.trans ?_, (hrows (-5) 3).2.trans ?_, (hrows (-5) 4).1.trans ?_,
    (hrows 3 (-5)).2.trans ?_, hdays, hconfig⟩
  · exact (if_pos (by decide)).trans (congrArg found hrecords)
  · exact (if_pos (by decide)).trans (congrArg found husages)
  · exact (if_pos (by decide)).trans (congrArg found hlate)
  · exact if_neg (by decide)

end Remote

end Daybook
