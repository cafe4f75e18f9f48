import Daybook.Proofs.Json.Decode
import Daybook.Proofs.Wire.RoundTrip

/-! # Records from rows of fields

A text of rows is decoded just if every row has the fields of a record. Otherwise the first row that has
not tells what is wrong, whatever follows it. -/

namespace Daybook

open Json

namespace Record

/-! ## Fields -/

/-- The field is a whole number of 64 bits. -/
def IsInteger (field : Reading) : Prop :=
  ∃ (n : Numeral) (i : Int64), field = .number n ∧ n.Writes i.toInt

def IsText (field : Reading) : Prop :=
  ∃ text, field = .string (some text)

/-- The first three fields are numbers, the others are texts. -/
def Suits (index : Nat) (field : Reading) : Prop :=
  if index < 3 then IsInteger field else IsText field

/-- The row has the fields of the record. -/
inductive IsRow : List Reading → Record → Prop
  | intro {start stop pid : Numeral} {r : Record} (hstart : start.Writes r.start.toInt)
      (hstop : stop.Writes r.stop.toInt) (hpid : pid.Writes r.pid.toInt) :
      IsRow [.number start, .number stop, .number pid, .string (some r.path),
        .string (some r.title)] r

/-- All fields before the position suit. -/
def FrontSuits (fields : List Reading) (index : Nat) : Prop :=
  ∀ i < index, ∀ field ∈ fields[i]?, Suits i field

/-- Of the five fields of a row, the one at the position is the first that does not suit. -/
structure FirstWrong (fields : List Reading) (index : Nat) : Prop where
  five : fields.length = 5
  wrong : ∃ field, fields[index]? = some field ∧ ¬Suits index field
  front : FrontSuits fields index

/-- What is wrong with a row. -/
inductive Offends (fields : List Reading) : RowError → Prop
  | arity (h : fields.length ≠ 5) : Offends fields (.arity fields.length)
  | notInteger {index : Nat} (hindex : index < 3) (h : FirstWrong fields index) :
      Offends fields (.notInteger index)
  | notString {index : Nat} (hindex : 3 ≤ index) (h : FirstWrong fields index) :
      Offends fields (.notString index)

section Fields

variable {index : Nat} {field : Reading} {fields : List Reading} {r : Record} {e : RowError}

theorem integerField_eq_ok_iff {i : Int64} :
    integerField index field = .ok i ↔ ∃ n : Numeral, field = .number n ∧ n.Writes i.toInt := by
  cases field with
  | number n =>
    simp only [integerField, Reading.number.injEq, exists_eq_left', ← Numeral.toInt64?_eq_some_iff]
    cases n.toInt64? <;> simp
  | _ => simp [integerField]

theorem integerField_eq_error_iff :
    integerField index field = .error e ↔ ¬IsInteger field ∧ e = .notInteger index := by
  have hinteger : IsInteger field ↔ ∃ i, integerField index field = .ok i := by
    simp only [IsInteger, integerField_eq_ok_iff]
    exact exists_comm
  rw [hinteger]
  fun_cases integerField index field <;> simp [eq_comm]

theorem stringField_eq_ok_iff {text : String} :
    stringField index field = .ok text ↔ field = .string (some text) := by
  cases field with
  | string text => cases text <;> simp [stringField]
  | _ => simp [stringField]

theorem stringField_eq_error_iff :
    stringField index field = .error e ↔ ¬IsText field ∧ e = .notString index := by
  have htext : IsText field ↔ ∃ text, stringField index field = .ok text := by
    simp only [IsText, stringField_eq_ok_iff]
  rw [htext]
  fun_cases stringField index field <;> simp [eq_comm]

theorem exists_five_of_length (h : fields.length = 5) :
    ∃ start stop pid path title, fields = [start, stop, pid, path, title] := by
  match fields, h with
  | [start, stop, pid, path, title], _ => exact ⟨start, stop, pid, path, title, rfl⟩

theorem ofFields_of_length_ne (h : fields.length ≠ 5) :
    ofFields fields = .error (.arity fields.length) := by
  fun_cases ofFields fields with
  | case1 => exact absurd rfl h
  | case2 => rfl

theorem ofFields_eq_ok_iff : ofFields fields = .ok r ↔ IsRow fields r := by
  constructor
  · intro h
    by_cases hfive : fields.length = 5
    · obtain ⟨start, stop, pid, path, title, rfl⟩ := exists_five_of_length hfive
      simp only [ofFields, bind_eq_ok_iff, integerField_eq_ok_iff, stringField_eq_ok_iff] at h
      obtain ⟨_, ⟨_, rfl, hstart⟩, _, ⟨_, rfl, hstop⟩, _, ⟨_, rfl, hpid⟩, _, rfl, _, rfl, heq⟩ := h
      obtain rfl := Except.ok.inj heq
      exact IsRow.intro (r := ⟨_, _, _, _, _⟩) hstart hstop hpid
    · rw [ofFields_of_length_ne hfive] at h
      contradiction
  · rintro ⟨hstart, hstop, hpid⟩
    simp only [ofFields, bind_eq_ok_iff, integerField_eq_ok_iff, stringField_eq_ok_iff]
    exact ⟨_, ⟨_, rfl, hstart⟩, _, ⟨_, rfl, hstop⟩, _, ⟨_, rfl, hpid⟩, _, rfl, _, rfl, rfl⟩

theorem frontSuits_zero : FrontSuits fields 0 :=
  fun i hi => absurd hi (Nat.not_lt_zero i)

theorem FrontSuits.succ (h : FrontSuits fields index) (hfield : fields[index]? = some field)
    (hsuits : Suits index field) : FrontSuits fields (index + 1) := by
  intro i hi other hother
  rcases Nat.lt_succ_iff_lt_or_eq.mp hi with hlt | rfl
  · exact h i hlt other hother
  · obtain rfl := Option.some.inj (hfield.symm.trans hother)
    exact hsuits

/-- A row that is refused has an offence, and this is what it is refused for. -/
theorem offends_of_ofFields (h : ofFields fields = .error e) : Offends fields e := by
  by_cases hfive : fields.length = 5
  · obtain ⟨start, stop, pid, path, title, rfl⟩ := exists_five_of_length hfive
    simp only [ofFields, bind_eq_error_iff, integerField_eq_error_iff, stringField_eq_error_iff,
      integerField_eq_ok_iff, stringField_eq_ok_iff] at h
    -- The fields are read one after the other, and up to where that stops they suit.
    rcases h with ⟨hwrong, rfl⟩ | ⟨i, ⟨n, rfl, hn⟩, h⟩
    · exact .notInteger (by decide) ⟨rfl, ⟨start, rfl, hwrong⟩, frontSuits_zero⟩
    have hstart : FrontSuits [.number n, stop, pid, path, title] 1 :=
      frontSuits_zero.succ rfl ⟨n, i, rfl, hn⟩
    rcases h with ⟨hwrong, rfl⟩ | ⟨i, ⟨n, rfl, hn⟩, h⟩
    · exact .notInteger (by decide) ⟨rfl, ⟨stop, rfl, hwrong⟩, hstart⟩
    have hstop := hstart.succ rfl ⟨n, i, rfl, hn⟩
    rcases h with ⟨hwrong, rfl⟩ | ⟨i, ⟨n, rfl, hn⟩, h⟩
    · exact .notInteger (by decide) ⟨rfl, ⟨pid, rfl, hwrong⟩, hstop⟩
    have hpid := hstop.succ rfl ⟨n, i, rfl, hn⟩
    rcases h with ⟨hwrong, rfl⟩ | ⟨text, rfl, h⟩
    · exact .notString (by decide) ⟨rfl, ⟨path, rfl, hwrong⟩, hpid⟩
    have hpath := hpid.succ rfl ⟨text, rfl⟩
    rcases h with ⟨hwrong, rfl⟩ | ⟨text, rfl, h⟩
    · exact .notString (by decide) ⟨rfl, ⟨title, rfl, hwrong⟩, hpath⟩
    contradiction
  · rw [ofFields_of_length_ne hfive] at h
    obtain rfl := Except.error.inj h
    exact .arity hfive

theorem FirstWrong.unique {i j : Nat} (hi : FirstWrong fields i) (hj : FirstWrong fields j) :
    i = j := by
  obtain ⟨first, hfirst, hfirstWrong⟩ := hi.wrong
  obtain ⟨second, hsecond, hsecondWrong⟩ := hj.wrong
  rcases Nat.lt_trichotomy i j with hlt | heq | hgt
  · exact absurd (hj.front i hlt first hfirst) hfirstWrong
  · exact heq
  · exact absurd (hi.front j hgt second hsecond) hsecondWrong

theorem Offends.unique {e' : RowError} (h : Offends fields e) (h' : Offends fields e') :
    e = e' := by
  cases h with
  | arity h =>
    cases h' with
    | arity => rfl
    | notInteger _ h' => exact absurd h'.five h
    | notString _ h' => exact absurd h'.five h
  | notInteger hindex h =>
    cases h' with
    | arity h' => exact absurd h.five h'
    | notInteger _ h' => rw [h.unique h']
    | notString hindex' h' =>
      have := h.unique h'
      omega
  | notString hindex h =>
    cases h' with
    | arity h' => exact absurd h.five h'
    | notInteger hindex' h' =>
      have := h.unique h'
      omega
    | notString _ h' => rw [h.unique h']

/-- The fields of a record all suit. -/
theorem IsRow.suits (h : IsRow fields r) :
    fields.length = 5 ∧ ∀ i, ∀ field ∈ fields[i]?, Suits i field := by
  obtain ⟨hstart, hstop, hpid⟩ := h
  refine ⟨rfl, fun i field hfield => ?_⟩
  match i with
  | 0 =>
    obtain rfl := Option.some.inj hfield
    exact ⟨_, _, rfl, hstart⟩
  | 1 =>
    obtain rfl := Option.some.inj hfield
    exact ⟨_, _, rfl, hstop⟩
  | 2 =>
    obtain rfl := Option.some.inj hfield
    exact ⟨_, _, rfl, hpid⟩
  | 3 =>
    obtain rfl := Option.some.inj hfield
    exact ⟨_, rfl⟩
  | 4 =>
    obtain rfl := Option.some.inj hfield
    exact ⟨_, rfl⟩
  | _ + 5 => contradiction

theorem IsRow.not_offends (h : IsRow fields r) : ¬Offends fields e := by
  intro hoffends
  obtain ⟨hfive, hsuits⟩ := h.suits
  cases hoffends with
  | arity hne => exact hne hfive
  | notInteger _ hwrong | notString _ hwrong =>
    obtain ⟨field, hfield, hnot⟩ := hwrong.wrong
    exact hnot (hsuits _ field hfield)

theorem ofFields_eq_error_iff : ofFields fields = .error e ↔ Offends fields e := by
  refine ⟨offends_of_ofFields, fun h => ?_⟩
  cases hread : ofFields fields with
  | ok r => exact absurd h (ofFields_eq_ok_iff.mp hread).not_offends
  | error e' => rw [(offends_of_ofFields hread).unique h]

end Fields

/-! ## Rows -/

/-- What a JSON reader sees of rows of fields. -/
def rowsReading (rows : List (List Reading)) : Reading :=
  .array (rows.map fun fields => .array fields true) true

section Rows

variable {room : Nat} {rows : List (List Reading)} {records : List Record}

theorem mapM_decode
    (h : Reading.areSound room (rows.map fun fields => .array fields true)) :
    (rows.map fun fields => Reading.array fields true).mapM (decode room) =
      rows.mapM fun fields => (ofFields fields).mapError some := by
  induction rows with
  | nil => rfl
  | cons fields rows ih =>
    rw [List.map_cons, Reading.areSound, Bool.and_eq_true] at h
    rw [List.map_cons, List.mapM_cons, List.mapM_cons, ih h.2, decode, if_pos h.1]

theorem mapError_some_eq_ok_iff {α ε : Type} {x : Except ε α} {a : α} :
    x.mapError some = .ok a ↔ x = .ok a := by
  cases x <;> simp [Except.mapError]

theorem mapError_some_eq_error_iff {α ε : Type} {x : Except ε α} {e : Option ε} :
    x.mapError some = .error e ↔ ∃ reason, x = .error reason ∧ e = some reason := by
  cases x <;> simp [Except.mapError, eq_comm]

/-- Rows that are sound as JSON are decoded one by one. -/
theorem decode_rowsReading (h : (rowsReading rows).isSound (room + 1)) :
    Decoder.list decode (room + 1) (rowsReading rows) =
      rows.mapM fun fields => (ofFields fields).mapError some := by
  rw [rowsReading, Reading.isSound, Bool.and_eq_true] at h
  have hrows : Reading.areSound room (rows.map fun fields => .array fields true) := h.2
  rw [rowsReading, Decoder.list, if_neg (Nat.succ_ne_zero room), Nat.add_sub_cancel,
    mapM_decode hrows]
  cases rows.mapM fun fields => (ofFields fields).mapError some <;> rfl

/-- A text of rows gives the records that all the rows are, or else what is wrong with the first row
that is none. Records come back from the text in which they are written. -/
theorem decodes_rows_up_to_offence :
    (∀ (text : List Char) (rows : List (List Reading)), Reading.Holds text (rowsReading rows) →
      (rowsReading rows).isSound Decoder.roomiest →
      (∀ records : List Record, Decoder.run (.list decode) text = .ok records ↔
        List.Forall₂ IsRow rows records) ∧
      ∀ e, Decoder.run (.list decode) text = .error e ↔ ∃ front fields rest reason,
        rows = front ++ fields :: rest ∧ (∃ records, List.Forall₂ IsRow front records) ∧
        Offends fields reason ∧ e = some reason) ∧
    ∀ records : List Record,
      Decoder.run (.list decode) (Json.array (records.map toJson)).text.toList = .ok records := by
  refine ⟨fun text rows hholds hsound => ?_, fun records => ?_⟩
  · have hrun : Decoder.run (.list decode) text =
        rows.mapM fun fields => (ofFields fields).mapError some :=
      (Decoder.run_of_holds hholds).trans (decode_rowsReading hsound)
    rw [hrun]
    constructor
    · intro records
      simp only [mapM_eq_ok_iff, mapError_some_eq_ok_iff, ofFields_eq_ok_iff]
    · intro e
      simp only [mapM_eq_error_iff, mapError_some_eq_ok_iff, mapError_some_eq_error_iff,
        ofFields_eq_ok_iff, ofFields_eq_error_iff]
      constructor
      · rintro ⟨front, fields, rest, rfl, hfront, reason, hreason, rfl⟩
        exact ⟨front, fields, rest, reason, rfl, hfront, hreason, rfl⟩
      · rintro ⟨front, fields, rest, reason, rfl, hfront, hreason, rfl⟩
        exact ⟨front, fields, rest, rfl, hfront, reason, hreason, rfl⟩
  · rw [Decoder.run_of_holds (holds_text _)]
    exact inverts_decode.list records Decoder.roomiest (by decide)

/-- The second of three rows has a number that does not fit; the third one is too short. -/
theorem decodes_rows_up_to_second :
    let text := (Json.array [toJson ⟨0, 9, -4, "a", "\""⟩,
      .array [.int 1, .int 9223372036854775808, .null, .string "", .string ""],
      .array [.bool true]]).text
    let rows : List (List Reading) :=
      [[.number (.ofInt 0), .number (.ofInt 9), .number (.ofInt (-4)), .string (some "a"),
        .string (some "\"")],
      [.number (.ofInt 1), .number (.ofInt 9223372036854775808), .null, .string (some ""),
        .string (some "")],
      [.bool true]]
    Reading.Holds text.toList (rowsReading rows) ∧
      (rowsReading rows).isSound Decoder.roomiest ∧
      List.Forall₂ IsRow (rows.take 1) [⟨0, 9, -4, "a", "\""⟩] ∧
      Decoder.run (.list decode) text.toList = .error (some (.notInteger 1)) := by
  intro text rows
  have hholds : Reading.Holds text.toList (rowsReading rows) := holds_text _
  have hsound : (rowsReading rows).isSound Decoder.roomiest := by decide +kernel
  have hfirst : List.Forall₂ IsRow (rows.take 1) [⟨0, 9, -4, "a", "\""⟩] :=
    .cons (ofFields_eq_ok_iff.mp (by rfl)) .nil
  have hsecond : Offends rows[1] (.notInteger 1) := ofFields_eq_error_iff.mp (by rfl)
  refine ⟨hholds, hsound, hfirst, ?_⟩
  exact ((decodes_rows_up_to_offence.1 text.toList rows hholds hsound).2 _).mpr
    ⟨rows.take 1, rows[1], rows.drop 2, .notInteger 1, rfl, ⟨_, hfirst⟩, hsecond, rfl⟩

end Rows

end Record

end Daybook
