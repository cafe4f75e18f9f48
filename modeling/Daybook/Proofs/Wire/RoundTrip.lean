import Daybook.Proofs.Json.Octets
import Daybook.Proofs.Json.RoundTrip
import Daybook.Wire.Envelope
import Daybook.Wire.Record

/-! # Rows on the wire

Decoders give back what was written: records and usages, lists of them, and what an envelope carries,
be it data or an error code. -/

namespace Daybook

namespace Json

variable {ε α : Type} {d : Decoder ε α} {toJson : α → Json} {need : Nat}

/-- The decoder gives back each value that was written, if `need` more containers may be opened. -/
def Decoder.Inverts (d : Decoder ε α) (toJson : α → Json) (need : Nat) : Prop :=
  ∀ a room, need ≤ room → d room (toJson a).reading = .ok a

theorem Decoder.inverts_int64 : (int64 (ε := ε)).Inverts ofInt64 0 := by
  intro n room _
  simp [int64, ofInt64, reading, Numeral.toInt64?_ofInt]

theorem Decoder.inverts_string : (string (ε := ε)).Inverts .string 0 := by
  intro text room _
  rfl

theorem mapM_readings (values : List α) {read : Reading → Except (Option ε) α}
    (h : ∀ a, read (toJson a).reading = .ok a) :
    (readings (values.map toJson)).mapM read = .ok values := by
  induction values with
  | nil => rfl
  | cons a values ih =>
    rw [List.map_cons, readings, List.mapM_cons, h a, ih]
    rfl

theorem Decoder.Inverts.list (h : d.Inverts toJson need) :
    d.list.Inverts (fun values => .array (values.map toJson)) (need + 1) := by
  intro values room hroom
  have hread : ∀ a, d (room - 1) (toJson a).reading = .ok a := fun a => h a _ (by omega)
  have hpos : room ≠ 0 := by omega
  simp only [Decoder.list, reading, if_neg hpos, mapM_readings values hread]
  rfl

end Json

open Json

/-- A number of 64 bits is never too large for a real. -/
theorem Json.Numeral.not_overflows_int64 (n : Int64) : (ofInt n.toInt).overflows = false :=
  not_overflows_of_toInt64? (toInt64?_ofInt n)

theorem Record.inverts_decode : decode.Inverts toJson 1 := by
  intro r room hroom
  have hpos : room ≠ 0 := by omega
  have hsound : Reading.isSound room (toJson r).reading = true := by
    simp [toJson, ofInt64, reading, readings, Reading.isSound, Reading.areSound, hpos,
      Numeral.not_overflows_int64]
  have hfields : ofFields (readings [.ofInt64 r.start, .ofInt64 r.stop, .ofInt64 r.pid,
      .string r.path, .string r.title]) = .ok r := by
    simp [ofInt64, reading, readings, ofFields, integerField, stringField,
      Numeral.toInt64?_ofInt]
    rfl
  rw [toJson, reading] at hsound ⊢
  rw [decode, if_pos hsound, hfields]
  rfl

theorem Usage.inverts_decode : decode.Inverts toJson 1 := by
  intro u room hroom
  have hpos : room ≠ 0 := by omega
  have hpath := Decoder.inverts_string (ε := RowError) u.path (room - 1) (Nat.zero_le _)
  have hamount := Decoder.inverts_int64 (ε := RowError) u.amount (room - 1) (Nat.zero_le _)
  simp only [reading] at hpath hamount
  simp only [toJson, reading, readings, decode, if_neg hpos, Decoder.item, List.length_cons,
    List.length_nil, Nat.zero_add, Nat.reduceAdd, Nat.zero_lt_succ, getElem?_pos,
    List.getElem_cons_zero, Nat.lt_add_one, List.getElem_cons_succ, hpath, hamount]
  rfl

namespace Envelope

variable {ε α : Type} {value : α}

theorem optional_reading {d : Decoder ε α} {room : Nat} {data : Json} (hne : data ≠ .null)
    (h : d room data.reading = .ok value) :
    Decoder.optional d room data.reading = .ok (some value) := by
  rw [Decoder.optional.eq_def]
  split
  · next heq => cases data <;> simp [reading] at heq hne
  · rw [h]
    rfl

theorem decode_success {d : Decoder ε α} {room : Nat} {data : Json} (hne : data ≠ .null)
    (h : d room data.reading = .ok value) :
    decode d (room + 1) (success data).reading = .ok ⟨true, some value, none⟩ := by
  have hdata := optional_reading hne h
  simp [success, reading, memberReadings, decode, Decoder.members, member, Decoder.once,
    Decoder.bool, hdata]
  rfl

/-- What an envelope of success carries is what its reader gets. -/
theorem openAnswer_success {d : Decoder RowError α} {data : Json} (hne : data ≠ .null)
    (h : d (Decoder.roomiest - 1) data.reading = .ok value) :
    openAnswer d 200 (success data).text.toUTF8 = .ok value := by
  have hrun : Decoder.run (decode d) (success data).text.toList =
      .ok ⟨true, some value, none⟩ := by
    rw [Decoder.run, ofText_text]
    change (decode d (Decoder.roomiest - 1 + 1) _ >>= _) = _
    rw [decode_success hne h]
    rfl
  rw [openAnswer, charactersOf_toUTF8, hrun]
  rfl

theorem decode_failure (d : Decoder ε α) (room : Nat) (code : String) :
    decode d (room + 1) (failure code).reading = .ok ⟨false, none, some code⟩ := by
  simp [failure, reading, memberReadings, decode, Decoder.members, member, Decoder.once,
    Decoder.bool, Decoder.optional, Decoder.string]
  rfl

/-- A refused request gives the code that its envelope carries. -/
theorem openAnswer_failure (d : Decoder RowError α) {status : Nat}
    (h : status < 200 ∨ 300 ≤ status) (code : String) :
    openAnswer d status (failure code).text.toUTF8 = .error (.refused code) := by
  have hrun : Decoder.run (decode (Decoder.anything (ε := RowError))) (failure code).text.toList =
      .ok ⟨false, none, some code⟩ := by
    rw [Decoder.run, ofText_text]
    change (decode Decoder.anything (Decoder.roomiest - 1 + 1) _ >>= _) = _
    rw [decode_failure]
    rfl
  rw [openAnswer, if_pos h, errorCode?, charactersOf_toUTF8, hrun]
  rfl

end Envelope

end Daybook
