import Daybook.Proofs.Wire.Envelope
import Daybook.Wire.Record

/-! # UTF-8 in answers

A byte that is no part of a character can stand in a string that is skipped. Records, usages, days and
error codes are read without skipping anything but members that nobody knows, so that without such members
they come of UTF-8 only. -/

namespace Daybook

open Json

/-! ## Decoders that skip nothing -/

namespace Json.Decoder

open Reading

variable {ε α : Type} {d : Decoder ε α} {room : Nat}

/-- The decoder takes a value only if all of the value can be read. -/
def IsThorough (d : Decoder ε α) : Prop :=
  ∀ ⦃room : Nat⦄ ⦃value : Reading⦄ ⦃a : α⦄, d room value = .ok a → value.isSound room

theorem isThorough_int64 : (int64 (ε := ε)).IsThorough := by
  intro room value a h
  cases value with
  | number n =>
    cases hn : n.toInt64? with
    | none =>
      rw [int64, hn] at h
      contradiction
    | some x => simp [isSound, Numeral.not_overflows_of_toInt64? hn]
  | _ => contradiction

theorem isThorough_string : (string (ε := ε)).IsThorough := by
  intro room value a h
  cases value with
  | string text =>
    cases text with
    | none => contradiction
    | some text => rfl
  | _ => contradiction

theorem isThorough_anything : (anything (ε := ε)).IsThorough := by
  intro room value a h
  rw [anything] at h
  split at h
  · assumption
  · contradiction

theorem IsThorough.areSound (hd : d.IsThorough) {items : List Reading} {as : List α}
    (h : List.Forall₂ (fun item a => d room item = .ok a) items as) : areSound room items := by
  induction h with
  | nil => rfl
  | cons ha _ ih => rw [Reading.areSound, hd ha, ih, Bool.and_self]

theorem IsThorough.list (hd : d.IsThorough) : d.list.IsThorough := by
  intro room value as h
  cases value with
  | array items closed =>
    rw [Decoder.list] at h
    split at h
    · contradiction
    · next hroom =>
      obtain ⟨values, hvalues, hclosed⟩ := bind_eq_ok_iff.mp h
      have hitems := hd.areSound (mapM_eq_ok_iff.mp hvalues)
      cases closed with
      | true => simp [isSound, hroom, hitems]
      | false => contradiction
  | _ => contradiction

theorem IsThorough.field (hd : d.IsThorough) {values : List Reading} {found : Option α}
    (h : Field d room values found) : ∀ value ∈ values, value.isSound room := by
  cases h with
  | absent => simp
  | null => simp [isSound]
  | value _ ha => simp [hd ha]

end Json.Decoder

open Decoder Reading

theorem Record.isThorough_decode : decode.IsThorough := by
  intro room value r h
  cases value with
  | array items closed =>
    rw [decode] at h
    split at h
    · assumption
    · contradiction
  | _ => contradiction

theorem Usage.isThorough_decode : decode.IsThorough := by
  intro room value u h
  cases value with
  | array items closed =>
    rw [decode] at h
    split at h
    · contradiction
    · next hroom =>
      simp only [bind_eq_ok_iff, item_eq_ok_iff] at h
      obtain ⟨path, ⟨first, hfirst, hpath⟩, amount, ⟨second, hsecond, hamount⟩, hend⟩ := h
      split at hend
      · next hlength =>
        match items, hlength with
        | [_, _], ⟨_, hclosed⟩ =>
          obtain rfl := Option.some.inj hfirst
          obtain rfl := Option.some.inj hsecond
          simp [isSound, Reading.areSound, hroom, hclosed, isThorough_string hpath,
            isThorough_int64 hamount]
      · contradiction
  | _ => contradiction

/-! ## Envelopes without other members -/

namespace Envelope

variable {α : Type} {d : Decoder RowError α} {room : Nat} {body : ByteArray} {e : Envelope α}

/-- No member of the value is skipped by whoever looks for an envelope. -/
def skipsNothing : Reading → Bool
  | .object members _ => members.all isKnown
  | _ => true

/-- Each member that says something can be read if the decoder of data is thorough. -/
theorem isSound_of_isKnown {members : List (Option String × Reading)} (hd : d.IsThorough)
    (h : Says d room (.object members true) e) {member : Option String × Reading}
    (hmember : member ∈ members) (hknown : isKnown member) : member.2.isSound room := by
  obtain ⟨key, value⟩ := member
  simp only [isKnown, List.mem_cons, List.not_mem_nil, or_false, decide_eq_true_eq] at hknown
  cases h with
  | object hnames hokay hdata herror =>
    rcases hknown with rfl | rfl | rfl | rfl
    · have hname := hnames _ hmember
      contradiction
    · have hvalue := mem_valuesOf hmember
      rw [hokay, List.mem_singleton] at hvalue
      rw [hvalue]
      rfl
    · exact hd.field hdata value (mem_valuesOf hmember)
    · exact isThorough_string.field herror value (mem_valuesOf hmember)

theorem Says.isSound {value : Reading} (hd : d.IsThorough) (hskip : skipsNothing value)
    (h : Says d room value e) : value.isSound (room + 1) := by
  have hsaid := h
  cases h with
  | @object members _ hnames =>
    have hmembers : haveSound room members := by
      rw [haveSound_iff]
      intro member hmember
      have hknown := List.all_eq_true.mp hskip member hmember
      exact ⟨hnames member hmember, isSound_of_isKnown hd hsaid hmember hknown⟩
    simp [Reading.isSound, hmembers]
  | array hdata herror =>
    have hdata := hd.field hdata _ List.mem_cons_self
    have herror := isThorough_string.field herror _ List.mem_cons_self
    simp [Reading.isSound, Reading.areSound, hdata, herror]

section Texts

variable (hskip : ∀ value, Holds (charactersOf body) value → skipsNothing value)

include hskip

/-- A body of which nothing is skipped can be read as an envelope only if it is a text. -/
theorem exists_text_of_reads (hd : d.IsThorough) (h : Reads d body e) :
    ∃ text : String, body = text.toUTF8 := by
  obtain ⟨value, hholds, hsaid⟩ := h
  exact exists_text_of_isSound hholds (hsaid.isSound hd (hskip value hholds))

/-- Nothing comes of a body of which nothing is skipped and that is no text: a request that went well
has a malformed answer then, and any other one is refused for its status. -/
theorem openAnswer_of_no_text (hd : d.IsThorough)
    (hbody : ∀ text : String, body ≠ text.toUTF8) (status : Nat) :
    (¬(status < 200 ∨ 300 ≤ status) →
      ∃ fault, fault ≠ .missingData ∧ openAnswer d status body = .error (.malformed fault)) ∧
    (status < 200 ∨ 300 ≤ status →
      openAnswer d status body = .error (.refused s!"http_{status}")) := by
  constructor
  · intro hstatus
    apply openAnswer_of_not_reads hstatus
    intro e he
    obtain ⟨text, htext⟩ := exists_text_of_reads hskip hd he
    exact hbody text htext
  · intro hstatus
    apply openAnswer_of_no_code hstatus
    intro e he
    obtain ⟨text, htext⟩ := exists_text_of_reads hskip isThorough_anything he
    exact absurd htext (hbody text)

theorem exists_text_of_openAnswer (hd : d.IsThorough) {status : Nat} {data : α}
    (h : openAnswer d status body = .ok data) : ∃ text : String, body = text.toUTF8 := by
  obtain ⟨-, error, he⟩ := openAnswer_eq_ok_iff.mp h
  exact exists_text_of_reads hskip hd he

/-- Records, usages, days and error codes come of texts, if nothing of the body is skipped. -/
theorem exists_text_of_answer {status : Nat}
    (h : (∃ records, openAnswer (.list Record.decode) status body = .ok records) ∨
      (∃ usages, openAnswer (.list Usage.decode) status body = .ok usages) ∨
      (∃ days, openAnswer (.list .int64) status body = .ok days) ∨
      ∃ code, errorCode? body = some code) :
    ∃ text : String, body = text.toUTF8 := by
  rcases h with ⟨records, h⟩ | ⟨usages, h⟩ | ⟨days, h⟩ | ⟨code, h⟩
  · exact exists_text_of_openAnswer hskip Record.isThorough_decode.list h
  · exact exists_text_of_openAnswer hskip Usage.isThorough_decode.list h
  · exact exists_text_of_openAnswer hskip isThorough_int64.list h
  · obtain ⟨e, he, -⟩ := errorCode?_eq_some_iff.mp h
    exact exists_text_of_reads hskip isThorough_anything he

end Texts

-- What is skipped may well be no UTF-8.
example : errorCode? ("\x7b\"x\":\"".toUTF8 ++ ⟨#[0xFF]⟩ ++
    "\",\"ok\":false,\"error\":\"no\"\x7d".toUTF8) = some "no" := by decide +kernel

end Envelope

end Daybook
