import Daybook.Proofs.Json.Decode
import Daybook.Proofs.Json.Octets
import Daybook.Proofs.Json.RoundTrip
import Daybook.Wire.Envelope
import Mathlib.Data.List.Induction

/-! # Opening envelopes

An answer is data just if its status says so and its body is an envelope that says so. What comes of it
depends only on the members with known names, and not on their order. -/

namespace Daybook

open Json

/-! ## What an envelope says -/

namespace Envelope

open Decoder Reading

variable {ε α : Type} {d : Decoder ε α} {room : Nat} {e : Envelope α}

/-- The value is an envelope. An object has `ok` once and the others once at most, and may have members
with other names; an array has all three. -/
inductive Says (d : Decoder ε α) (room : Nat) : Reading → Envelope α → Prop
  | object {members : List (Option String × Reading)} {e : Envelope α}
      (hnames : ∀ member ∈ members, member.1.isSome)
      (hokay : valuesOf "ok" members = [.bool e.okay])
      (hdata : Field d room (valuesOf "data" members) e.data)
      (herror : Field (string (ε := ε)) room (valuesOf "error" members) e.error) :
      Says d room (.object members true) e
  | array {data error : Reading} {e : Envelope α} (hdata : Field d room [data] e.data)
      (herror : Field (string (ε := ε)) room [error] e.error) :
      Says d room (.array [.bool e.okay, data, error] true) e

/-- The body holds an envelope and nothing else. Only a string that is skipped need not be UTF-8. -/
def Reads (d : Decoder ε α) (body : ByteArray) (e : Envelope α) : Prop :=
  ∃ reading, Holds (charactersOf body) reading ∧ Says d (roomiest - 1) reading e

/-- What is seen once some members have been met. -/
structure Met (d : Decoder ε α) (room : Nat) (members : List (Option String × Reading))
    (seen : Seen α) : Prop where
  names : ∀ member ∈ members, member.1.isSome
  okay : Slot (bool (ε := ε)) room (valuesOf "ok" members) seen.okay
  data : Slot (optional d) room (valuesOf "data" members) seen.data
  error : Slot (optional (string (ε := ε))) room (valuesOf "error" members) seen.error

section Members

variable {members : List (Option String × Reading)} {key : String} {value : Reading}
  {seen found : Seen α}

theorem met_nil_iff : Met d room [] found ↔ found = {} := by
  constructor
  · rintro ⟨-, hokay, hdata, herror⟩
    obtain ⟨okay, data, error⟩ := found
    cases hokay
    cases hdata
    cases herror
    rfl
  · rintro rfl
    exact ⟨by simp, .empty, .empty, .empty⟩

/-- What it takes for a member to be passed. -/
inductive Passes (d : Decoder ε α) (room : Nat) (value : Reading) (seen : Seen α) :
    String → Seen α → Prop
  | okay {okay : Option Bool} (h : once (bool (ε := ε)) room seen.okay value = .ok okay) :
      Passes d room value seen "ok" { seen with okay }
  | data {data : Option (Option α)} (h : once (optional d) room seen.data value = .ok data) :
      Passes d room value seen "data" { seen with data }
  | error {error : Option (Option String)}
      (h : once (optional (string (ε := ε))) room seen.error value = .ok error) :
      Passes d room value seen "error" { seen with error }
  | other {key : String} (hkey : key ∉ ["ok", "data", "error"]) :
      Passes d room value seen key seen

theorem member_eq_ok_iff (hvalue : value.isWhole) :
    member d room seen key value = .ok found ↔ Passes d room value seen key found := by
  constructor
  · intro h
    revert h
    fun_cases member d room seen key value with
    | case1 hkey =>
      intro h
      subst hkey
      obtain ⟨okay, honce, rfl⟩ := map_eq_ok_iff.mp h
      exact .okay honce
    | case2 _ hkey =>
      intro h
      subst hkey
      obtain ⟨data, honce, rfl⟩ := map_eq_ok_iff.mp h
      exact .data honce
    | case3 _ _ hkey =>
      intro h
      subst hkey
      obtain ⟨error, honce, rfl⟩ := map_eq_ok_iff.mp h
      exact .error honce
    | case4 hokay hdata herror =>
      intro h
      rw [ignore, if_pos hvalue] at h
      obtain rfl := Except.ok.inj h
      exact .other (by simp [hokay, hdata, herror])
  · intro h
    cases h with
    | okay h | data h | error h => exact map_eq_ok_iff.mpr ⟨_, h, rfl⟩
    | other hkey =>
      simp only [List.mem_cons, List.not_mem_nil, or_false, not_or] at hkey
      simp [member, hkey, ignore, hvalue]

theorem names_concat : (∀ member ∈ members ++ [(some key, value)], member.1.isSome) ↔
    ∀ member ∈ members, member.1.isSome := by
  rw [List.forall_mem_append]
  simp

/-- A member that passes is met after the others. -/
theorem Met.concat (h : Met d room members seen) (hpass : Passes d room value seen key found) :
    Met d room (members ++ [(some key, value)]) found := by
  obtain ⟨hfront, hokay, hdata, herror⟩ := h
  have hnames : ∀ member ∈ members ++ [(some key, value)], member.1.isSome :=
    names_concat.mpr hfront
  cases hpass with
  | okay honce =>
    refine ⟨hnames, ?_, ?_, ?_⟩ <;> simp only [valuesOf_concat, String.reduceEq, if_true, if_false]
    · exact slot_concat_iff.mpr ⟨_, hokay, honce⟩
    · exact hdata
    · exact herror
  | data honce =>
    refine ⟨hnames, ?_, ?_, ?_⟩ <;> simp only [valuesOf_concat, String.reduceEq, if_true, if_false]
    · exact hokay
    · exact slot_concat_iff.mpr ⟨_, hdata, honce⟩
    · exact herror
  | error honce =>
    refine ⟨hnames, ?_, ?_, ?_⟩ <;> simp only [valuesOf_concat, String.reduceEq, if_true, if_false]
    · exact hokay
    · exact hdata
    · exact slot_concat_iff.mpr ⟨_, herror, honce⟩
  | other hkey =>
    simp only [List.mem_cons, List.not_mem_nil, or_false, not_or] at hkey
    refine ⟨hnames, ?_, ?_, ?_⟩ <;> simp only [valuesOf_concat, hkey, if_false]
    · exact hokay
    · exact hdata
    · exact herror

/-- The last of the members that are met passes after the others. -/
theorem Met.exists_passes (h : Met d room (members ++ [(some key, value)]) found) :
    ∃ seen, Met d room members seen ∧ Passes d room value seen key found := by
  obtain ⟨hnames, hokay, hdata, herror⟩ := h
  rw [names_concat] at hnames
  simp only [valuesOf_concat] at hokay hdata herror
  by_cases hkey : key ∈ ["ok", "data", "error"]
  · simp only [List.mem_cons, List.not_mem_nil, or_false] at hkey
    rcases hkey with rfl | rfl | rfl
    · obtain ⟨okay, hslot, honce⟩ := slot_concat_iff.mp hokay
      exact ⟨{ found with okay }, ⟨hnames, hslot, hdata, herror⟩, .okay honce⟩
    · obtain ⟨data, hslot, honce⟩ := slot_concat_iff.mp hdata
      exact ⟨{ found with data }, ⟨hnames, hokay, hslot, herror⟩, .data honce⟩
    · obtain ⟨error, hslot, honce⟩ := slot_concat_iff.mp herror
      exact ⟨{ found with error }, ⟨hnames, hokay, hdata, hslot⟩, .error honce⟩
  · refine ⟨found, ?_, .other hkey⟩
    simp only [List.mem_cons, List.not_mem_nil, or_false, not_or] at hkey
    simp only [hkey, if_false] at hokay hdata herror
    exact ⟨hnames, hokay, hdata, herror⟩

/-- All members are passed just if they are met. -/
theorem foldlM_eq_ok_iff (hwhole : haveWhole members) :
    members.foldlM (fun seen (key, value) =>
        match key with
        | some key => member d room seen key value
        | none => refuse) {} = .ok found ↔
      Met d room members found := by
  rw [haveWhole_iff] at hwhole
  induction members using List.reverseRecOn generalizing found with
  | nil =>
    rw [met_nil_iff, List.foldlM_nil]
    exact ⟨fun h => (Except.ok.inj h).symm, fun h => h ▸ rfl⟩
  | append_singleton members last ih =>
    obtain ⟨key, value⟩ := last
    rw [List.forall_mem_append, List.forall_mem_singleton] at hwhole
    rw [List.foldlM_append, bind_eq_ok_iff]
    simp only [ih hwhole.1, List.foldlM_cons, List.foldlM_nil, bind_pure]
    cases key with
    | none =>
      constructor
      · rintro ⟨seen, -, hrefuse⟩
        contradiction
      · intro h
        have hname := h.names (none, value) (by simp)
        contradiction
    | some key =>
      simp only [member_eq_ok_iff hwhole.2]
      constructor
      · rintro ⟨seen, hseen, hpass⟩
        exact hseen.concat hpass
      · exact Met.exists_passes

end Members

theorem slot_bool_iff {values : List Reading} {b : Bool} :
    Slot (bool (ε := ε)) room values (some b) ↔ values = [.bool b] := by
  constructor
  · intro h
    cases h with
    | filled h => rw [bool_eq_ok_iff.mp h]
  · rintro rfl
    exact .filled rfl

/-- An object says what is seen once all its members have been met. -/
theorem says_object_iff {members : List (Option String × Reading)} :
    Says d room (.object members true) e ↔
      ∃ seen, Met d room members seen ∧ seen.okay = some e.okay ∧ seen.data.join = e.data ∧
        seen.error.join = e.error := by
  constructor
  · intro h
    cases h with
    | object hnames hokay hdata herror =>
      obtain ⟨data, hdata, hdataJoin⟩ := field_iff_slot.mp hdata
      obtain ⟨error, herror, herrorJoin⟩ := field_iff_slot.mp herror
      exact ⟨⟨some e.okay, data, error⟩, ⟨hnames, slot_bool_iff.mpr hokay, hdata, herror⟩, rfl,
        hdataJoin, herrorJoin⟩
  · rintro ⟨seen, ⟨hnames, hokay, hdata, herror⟩, heq, hdataJoin, herrorJoin⟩
    rw [heq] at hokay
    exact .object hnames (slot_bool_iff.mp hokay) (field_iff_slot.mpr ⟨_, hdata, hdataJoin⟩)
      (field_iff_slot.mpr ⟨_, herror, herrorJoin⟩)

theorem decode_object_eq_ok_iff {members : List (Option String × Reading)}
    (hwhole : haveWhole members) :
    decode d (room + 1) (.object members true) = .ok e ↔ Says d room (.object members true) e := by
  rw [says_object_iff]
  simp only [decode, Decoder.members, Nat.add_one_ne_zero, if_false, if_true, Nat.add_sub_cancel,
    bind_assoc, pure_bind]
  rw [bind_eq_ok_iff]
  constructor
  · rintro ⟨seen, hseen, h⟩
    refine ⟨seen, (foldlM_eq_ok_iff hwhole).mp hseen, ?_⟩
    cases hokay : seen.okay with
    | none =>
      rw [hokay] at h
      contradiction
    | some okay =>
      rw [hokay] at h
      obtain rfl := Except.ok.inj h
      exact ⟨rfl, rfl, rfl⟩
  · rintro ⟨seen, hseen, hokay, hdata, herror⟩
    refine ⟨seen, (foldlM_eq_ok_iff hwhole).mpr hseen, ?_⟩
    rw [hokay, hdata, herror]
    rfl

theorem decode_array_eq_ok_iff {items : List Reading} :
    decode d (room + 1) (.array items true) = .ok e ↔ Says d room (.array items true) e := by
  constructor
  · intro h
    simp only [decode, Nat.add_one_ne_zero, if_false, Nat.add_sub_cancel, bind_eq_ok_iff,
      item_eq_ok_iff, bool_eq_ok_iff, optional_eq_ok_iff, and_true] at h
    obtain ⟨okay, ⟨_, hfirst, rfl⟩, data, ⟨second, hsecond, hdata⟩, error,
      ⟨third, hthird, herror⟩, h⟩ := h
    split at h
    · next hlength =>
      obtain rfl := Except.ok.inj h
      match items, hlength with
      | [_, _, _], _ =>
        obtain rfl := Option.some.inj hfirst
        obtain rfl := Option.some.inj hsecond
        obtain rfl := Option.some.inj hthird
        exact Says.array (e := ⟨_, data, error⟩) hdata herror
    · contradiction
  · intro h
    cases h with
    | array hdata herror =>
      simp only [decode, Nat.add_one_ne_zero, if_false, Nat.add_sub_cancel, bind_eq_ok_iff,
        item_eq_ok_iff, bool_eq_ok_iff, optional_eq_ok_iff]
      exact ⟨_, ⟨_, rfl, rfl⟩, _, ⟨_, rfl, hdata⟩, _, ⟨_, rfl, herror⟩, rfl⟩

/-- A value that is whole is decoded just if it is an envelope. -/
theorem decode_eq_ok_iff {value : Reading} (hwhole : value.isWhole) :
    decode d (room + 1) value = .ok e ↔ Says d room value e := by
  cases value with
  | array items closed =>
    obtain ⟨rfl, -⟩ : closed = true ∧ areWhole items = true := by
      simpa only [Reading.isWhole, Bool.and_eq_true] using hwhole
    exact decode_array_eq_ok_iff
  | object members closed =>
    obtain ⟨rfl, hmembers⟩ : closed = true ∧ haveWhole members = true := by
      simpa only [Reading.isWhole, Bool.and_eq_true] using hwhole
    exact decode_object_eq_ok_iff hmembers
  | _ =>
    constructor
    · intro h
      contradiction
    · intro h
      cases h

theorem run_decode_eq_ok_iff {body : ByteArray} :
    Decoder.run (decode d) (charactersOf body) = .ok e ↔ Reads d body e := by
  have hroom : roomiest = roomiest - 1 + 1 := rfl
  rw [run_eq_ok_iff, Reads]
  constructor
  · rintro ⟨reading, hholds, hdecode⟩
    rw [hroom, decode_eq_ok_iff hholds.isWhole] at hdecode
    exact ⟨reading, hholds, hdecode⟩
  · rintro ⟨reading, hholds, hsays⟩
    refine ⟨reading, hholds, ?_⟩
    rw [hroom, decode_eq_ok_iff hholds.isWhole]
    exact hsays

/-! ## What does not matter -/

/-- The member has no name at all, or one that says something. -/
def isKnown (member : Option String × Reading) : Bool :=
  member.1 ∈ [none, some "ok", some "data", some "error"]

section Known

variable {members members' : List (Option String × Reading)}
  (hknown : (members.filter isKnown).Perm (members'.filter isKnown))

theorem valuesOf_filter_isKnown {name : String} (hname : name ∈ ["ok", "data", "error"]) :
    valuesOf name (members.filter isKnown) = valuesOf name members := by
  rw [valuesOf, valuesOf, List.filter_filter]
  congr 1
  refine List.filter_congr fun member _ => ?_
  by_cases h : member.1 = some name
  · have hmember : isKnown member := by
      simp only [List.mem_cons, List.not_mem_nil, or_false] at hname
      rcases hname with rfl | rfl | rfl <;> simp [isKnown, h]
    simp [h, hmember]
  · simp [h]

include hknown

theorem valuesOf_perm {name : String} (hname : name ∈ ["ok", "data", "error"]) :
    (valuesOf name members).Perm (valuesOf name members') := by
  have hvalues : valuesOf name (members.filter isKnown) = valuesOf name members :=
    valuesOf_filter_isKnown hname
  have hvalues' : valuesOf name (members'.filter isKnown) = valuesOf name members' :=
    valuesOf_filter_isKnown hname
  rw [← hvalues, ← hvalues']
  exact (hknown.filter _).map _

theorem names_of_perm (h : ∀ member ∈ members, member.1.isSome) :
    ∀ member ∈ members', member.1.isSome := by
  intro member hmember
  rw [Option.isSome_iff_ne_none]
  intro hnone
  have hfilter : member ∈ members'.filter isKnown :=
    List.mem_filter.mpr ⟨hmember, by simp [isKnown, hnone]⟩
  have hname := h member (List.mem_of_mem_filter (hknown.mem_iff.mpr hfilter))
  rw [hnone] at hname
  contradiction

theorem Says.perm (h : Says d room (.object members true) e) :
    Says d room (.object members' true) e := by
  cases h with
  | object hnames hokay hdata herror =>
    refine .object (names_of_perm hknown hnames) ?_ (hdata.perm (valuesOf_perm hknown (by decide)))
      (herror.perm (valuesOf_perm hknown (by decide)))
    have hperm : (valuesOf "ok" members).Perm (valuesOf "ok" members') :=
      valuesOf_perm hknown (by decide)
    rw [hokay] at hperm
    exact (List.singleton_perm.mp hperm).symm

end Known

theorem reads_object_iff {body : ByteArray} {members : List (Option String × Reading)}
    (h : Holds (charactersOf body) (.object members true)) :
    Reads d body e ↔ Says d (roomiest - 1) (.object members true) e := by
  constructor
  · rintro ⟨reading, hholds, hsays⟩
    rw [h.unique hholds]
    exact hsays
  · exact fun hsays => ⟨_, h, hsays⟩

/-! ## Answers -/

theorem holds_toUTF8 (value : Json) : Holds (charactersOf value.text.toUTF8) value.reading := by
  rw [charactersOf_toUTF8]
  exact holds_text value

/-- Outcomes that differ at most in what is wrong with the body of an answer. -/
inductive SameOutcome : Except FetchError α → Except FetchError α → Prop
  | same {outcome : Except FetchError α} : SameOutcome outcome outcome
  | malformed {fault fault' : Fault} (h : fault ≠ .missingData) (h' : fault' ≠ .missingData) :
      SameOutcome (.error (.malformed fault)) (.error (.malformed fault'))

section Answers

variable {d : Decoder RowError α} {status : Nat} {body body' : ByteArray}

theorem ofDecoder_ne_missingData (reason : Option RowError) :
    Fault.ofDecoder reason ≠ .missingData := by
  cases reason <;> simp [Fault.ofDecoder]

theorem errorCode?_eq_some_iff {code : String} : errorCode? body = some code ↔
    ∃ e, Reads (anything (ε := RowError)) body e ∧ e.error = some code := by
  simp only [← run_decode_eq_ok_iff, errorCode?]
  cases Decoder.run (decode (anything (ε := RowError))) (charactersOf body) <;> simp

theorem openAnswer_of_status (h : status < 200 ∨ 300 ≤ status) :
    openAnswer d status body =
      .error (.refused ((errorCode? body).getD s!"http_{status}")) := by
  rw [openAnswer, if_pos h]

theorem openAnswer_of_reads {e : Envelope α} (h : ¬(status < 200 ∨ 300 ≤ status))
    (hreads : Reads d body e) :
    openAnswer d status body =
      if e.okay then
        match e.data with
        | some data => .ok data
        | none => .error (.malformed .missingData)
      else .error (.refused (e.error.getD "not_ok")) := by
  have hrun := run_decode_eq_ok_iff.mpr hreads
  obtain ⟨okay, data, error⟩ := e
  cases okay <;> cases data <;> simp [openAnswer, h, hrun]

theorem openAnswer_of_not_reads (h : ¬(status < 200 ∨ 300 ≤ status))
    (hreads : ∀ e, ¬Reads d body e) :
    ∃ fault, fault ≠ .missingData ∧ openAnswer d status body = .error (.malformed fault) := by
  rw [openAnswer, if_neg h]
  cases hrun : Decoder.run (decode d) (charactersOf body) with
  | ok e => exact absurd (run_decode_eq_ok_iff.mp hrun) (hreads e)
  | error reason => exact ⟨_, ofDecoder_ne_missingData reason, rfl⟩

theorem openAnswer_of_code {e : Envelope Unit} {code : String} (h : status < 200 ∨ 300 ≤ status)
    (hreads : Reads (anything (ε := RowError)) body e) (hcode : e.error = some code) :
    openAnswer d status body = .error (.refused code) := by
  rw [openAnswer_of_status h, errorCode?_eq_some_iff.mpr ⟨e, hreads, hcode⟩, Option.getD_some]

theorem openAnswer_of_no_code (h : status < 200 ∨ 300 ≤ status)
    (hnone : ∀ e, Reads (anything (ε := RowError)) body e → e.error = none) :
    openAnswer d status body = .error (.refused s!"http_{status}") := by
  have hcode : errorCode? body = none := by
    rw [Option.eq_none_iff_forall_ne_some]
    intro code hcode
    obtain ⟨e, he, herror⟩ := errorCode?_eq_some_iff.mp hcode
    rw [hnone e he] at herror
    contradiction
  rw [openAnswer_of_status h, hcode, Option.getD_none]

/-- Data comes of an answer only where status and body both say so. -/
theorem openAnswer_eq_ok_iff {data : α} : openAnswer d status body = .ok data ↔
    ¬(status < 200 ∨ 300 ≤ status) ∧ ∃ error, Reads d body ⟨true, some data, error⟩ := by
  constructor
  · intro h
    by_cases hstatus : status < 200 ∨ 300 ≤ status
    · rw [openAnswer_of_status hstatus] at h
      contradiction
    · refine ⟨hstatus, ?_⟩
      by_cases hreads : ∃ e, Reads d body e
      · obtain ⟨⟨okay, found, error⟩, he⟩ := hreads
        rw [openAnswer_of_reads hstatus he] at h
        cases okay with
        | false => contradiction
        | true =>
          cases found with
          | none => contradiction
          | some found =>
            obtain rfl := Except.ok.inj h
            exact ⟨error, he⟩
      · obtain ⟨fault, -, heq⟩ := openAnswer_of_not_reads hstatus (not_exists.mp hreads)
        rw [heq] at h
        contradiction
  · rintro ⟨hstatus, error, he⟩
    exact openAnswer_of_reads hstatus he

/-- Bodies that say the same have the same outcome. -/
theorem sameOutcome_of_reads
    (hcode : ∀ e, Reads (anything (ε := RowError)) body e ↔ Reads (anything (ε := RowError)) body' e)
    (hdata : ∀ e, Reads d body e ↔ Reads d body' e) :
    SameOutcome (openAnswer d status body) (openAnswer d status body') := by
  by_cases h : status < 200 ∨ 300 ≤ status
  · have herror : errorCode? body = errorCode? body' := by
      refine Option.ext fun code => ?_
      simp only [errorCode?_eq_some_iff, hcode]
    rw [openAnswer_of_status h, openAnswer_of_status h, herror]
    exact .same
  · by_cases hreads : ∃ e, Reads d body e
    · obtain ⟨e, he⟩ := hreads
      rw [openAnswer_of_reads h he, openAnswer_of_reads h ((hdata e).mp he)]
      exact .same
    · rw [not_exists] at hreads
      obtain ⟨fault, hfault, heq⟩ := openAnswer_of_not_reads h hreads
      obtain ⟨fault', hfault', heq'⟩ := openAnswer_of_not_reads h
        fun e he => hreads e ((hdata e).mpr he)
      rw [heq, heq']
      exact .malformed hfault hfault'

end Answers

/-- What comes of an answer follows from its status and from what its body says, for every decoder of
data. It stays the same if the members of the body are in another order, or if members with other names
come or go. -/
theorem openAnswer_follows_body (d : Decoder RowError α) (status : Nat) (body : ByteArray) :
    let answer := openAnswer d status body
    (∀ data, answer = .ok data ↔
      200 ≤ status ∧ status < 300 ∧ ∃ error, Reads d body ⟨true, some data, error⟩) ∧
    (status < 200 ∨ 300 ≤ status →
      (∀ e code, Reads (anything (ε := RowError)) body e → e.error = some code →
        answer = .error (.refused code)) ∧
      ((∀ e, Reads (anything (ε := RowError)) body e → e.error = none) →
        answer = .error (.refused s!"http_{status}"))) ∧
    (200 ≤ status → status < 300 →
      (∀ data error, Reads d body ⟨false, data, error⟩ →
        answer = .error (.refused (error.getD "not_ok"))) ∧
      (∀ error, Reads d body ⟨true, none, error⟩ → answer = .error (.malformed .missingData)) ∧
      ((∀ e, ¬Reads d body e) →
        ∃ fault, fault ≠ .missingData ∧ answer = .error (.malformed fault))) ∧
    ∀ (body' : ByteArray) (members members' : List (Option String × Reading)),
      Holds (charactersOf body) (.object members true) →
      Holds (charactersOf body') (.object members' true) →
      (members.filter isKnown).Perm (members'.filter isKnown) →
      SameOutcome answer (openAnswer d status body') := by
  intro answer
  refine ⟨fun data => ?_, fun h => ⟨?_, openAnswer_of_no_code h⟩, fun hlow hhigh => ?_, ?_⟩
  · have hstatus : ¬(status < 200 ∨ 300 ≤ status) ↔ 200 ≤ status ∧ status < 300 := by omega
    rw [← and_assoc, ← hstatus]
    exact openAnswer_eq_ok_iff
  · exact fun e code => openAnswer_of_code h
  · have hstatus : ¬(status < 200 ∨ 300 ≤ status) := by omega
    exact ⟨fun data error => openAnswer_of_reads hstatus, fun error => openAnswer_of_reads hstatus,
      openAnswer_of_not_reads hstatus⟩
  · intro body' members members' hbody hbody' hknown
    refine sameOutcome_of_reads (fun e => ?_) fun e => ?_
    · rw [reads_object_iff hbody, reads_object_iff hbody']
      exact ⟨Says.perm hknown, Says.perm hknown.symm⟩
    · rw [reads_object_iff hbody, reads_object_iff hbody']
      exact ⟨Says.perm hknown, Says.perm hknown.symm⟩

/-- Days in an envelope with a member that nobody knows, a refusal that brings data, and no bytes at
all. -/
theorem openAnswer_follows_body_of_days :
    let d : Decoder RowError (List Int64) := .list .int64
    let days := Json.array [.int 5]
    let body := (Json.object [("x", .null), ("data", days), ("ok", .bool true)]).text.toUTF8
    let body' := (Json.object [("ok", .bool true), ("data", days)]).text.toUTF8
    let refusal := (Json.object [("error", .string "no"), ("ok", .bool false), ("data", days)]).text
    openAnswer d 299 body = .ok [5] ∧
      SameOutcome (openAnswer d 299 body) (openAnswer d 299 body') ∧
      openAnswer d 404 refusal.toUTF8 = .error (.refused "no") ∧
      openAnswer d 200 refusal.toUTF8 = .error (.refused "no") ∧
      openAnswer d 300 .empty = .error (.refused "http_300") ∧
      ∃ fault, fault ≠ .missingData ∧ openAnswer d 200 .empty = .error (.malformed fault) := by
  intro d days body body' refusal
  have hnothing : ∀ {α : Type} {d : Decoder RowError α} (e : Envelope α), ¬Reads d .empty e := by
    rintro α d e ⟨reading, hholds, -⟩
    have hempty : charactersOf .empty = [] := charactersOf_toUTF8 ""
    rw [hempty] at hholds
    exact absurd hholds.length_pos (Nat.lt_irrefl 0)
  have hdays : days.reading ≠ .null := by simp [days, reading]
  have hno : (Json.string "no").reading ≠ .null := by simp [reading]
  have hbody : Reads d body ⟨true, some [5], none⟩ :=
    ⟨_, holds_toUTF8 _, .object (by simp [memberReadings]) rfl (.value hdays rfl) .absent⟩
  have hcode : Reads (anything (ε := RowError)) refusal.toUTF8 ⟨false, some (), some "no"⟩ :=
    ⟨_, holds_toUTF8 _, .object (by simp [memberReadings]) rfl (.value hdays rfl) (.value hno rfl)⟩
  have hrefusal : Reads d refusal.toUTF8 ⟨false, some [5], some "no"⟩ :=
    ⟨_, holds_toUTF8 _, .object (by simp [memberReadings]) rfl (.value hdays rfl) (.value hno rfl)⟩
  have hknown : (memberReadings [("x", .null), ("data", days), ("ok", .bool true)]
      |>.filter isKnown).Perm (memberReadings [("ok", .bool true), ("data", days)]
      |>.filter isKnown) := by
    simpa [memberReadings, isKnown] using List.Perm.swap _ _ _
  refine ⟨?_, ?_, ?_, ?_, ?_, ?_⟩
  · exact ((openAnswer_follows_body d 299 body).1 _).mpr ⟨by decide, by decide, none, hbody⟩
  · exact (openAnswer_follows_body d 299 body).2.2.2 body' _ _ (holds_toUTF8 _) (holds_toUTF8 _)
      hknown
  · exact ((openAnswer_follows_body d 404 _).2.1 (by decide)).1 _ _ hcode rfl
  · exact ((openAnswer_follows_body d 200 _).2.2.1 (by decide) (by decide)).1 _ _ hrefusal
  · exact ((openAnswer_follows_body d 300 _).2.1 (by decide)).2 fun e he => absurd he (hnothing e)
  · exact ((openAnswer_follows_body d 200 _).2.2.1 (by decide) (by decide)).2.2 hnothing

end Envelope

end Daybook
