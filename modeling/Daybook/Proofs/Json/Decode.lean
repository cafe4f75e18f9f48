import Daybook.Json.Decode
import Daybook.Proofs.Json.Grammar
import Daybook.Proofs.Steps

/-! # What decoders take

A decoder takes a text just if the text holds one value and the decoder takes the value. The members of
an object are told apart by their names: one that is known must not come twice. -/

namespace Daybook.Json

namespace Reading

/-- The values of the members with a name. -/
def valuesOf (name : String) (members : List (Option String × Reading)) : List Reading :=
  (members.filter (·.1 = some name)).map (·.2)

variable {members : List (Option String × Reading)} {name key : String} {value : Reading}

theorem valuesOf_concat : valuesOf name (members ++ [(some key, value)]) =
    if key = name then valuesOf name members ++ [value] else valuesOf name members := by
  split
  · next h => simp [valuesOf, h]
  · next h => simp [valuesOf, h]

theorem mem_valuesOf (h : (some name, value) ∈ members) : value ∈ valuesOf name members :=
  List.mem_map.mpr ⟨_, List.mem_filter.mpr ⟨h, decide_eq_true rfl⟩, rfl⟩

theorem haveWhole_iff : haveWhole members ↔ ∀ member ∈ members, member.2.isWhole := by
  induction members with
  | nil => simp [haveWhole]
  | cons member members ih =>
    obtain ⟨key, value⟩ := member
    rw [haveWhole, Bool.and_eq_true, ih, List.forall_mem_cons]

theorem haveSound_iff {room : Nat} :
    haveSound room members ↔ ∀ member ∈ members, member.1.isSome ∧ member.2.isSound room := by
  induction members with
  | nil => simp [haveSound]
  | cons member members ih =>
    obtain ⟨key, value⟩ := member
    rw [haveSound, Bool.and_eq_true, Bool.and_eq_true, ih, List.forall_mem_cons]

end Reading

namespace Decoder

open Reading

variable {ε α : Type} {d : Decoder ε α} {room : Nat} {values : List Reading} {value : Reading}

/-- What comes of a text that holds one value is what comes of the value. -/
theorem run_of_holds {text : List Char} (h : Holds text value) : d.run text = d roomiest value := by
  rw [run, ofText_eq_iff.mpr h]
  simp only [if_true]
  cases d roomiest value <;> rfl

/-- Only a text that holds one value is decoded. -/
theorem run_eq_ok_iff {text : List Char} {a : α} :
    d.run text = .ok a ↔ ∃ value, Holds text value ∧ d roomiest value = .ok a := by
  constructor
  · intro h
    cases hread : ofText text with
    | mk value clean =>
      cases clean with
      | true =>
        have hholds := ofText_eq_iff.mp hread
        exact ⟨value, hholds, (run_of_holds hholds).symm.trans h⟩
      | false =>
        simp only [run, hread] at h
        cases hd : d roomiest value <;> rw [hd] at h <;> contradiction
  · rintro ⟨value, hholds, hd⟩
    rw [run_of_holds hholds, hd]

theorem item_eq_ok_iff {items : List Reading} {index : Nat} {a : α} :
    item d room items index = .ok a ↔ ∃ value, items[index]? = some value ∧ d room value = .ok a := by
  rw [item]
  cases items[index]? <;> simp [refuse]

theorem bool_eq_ok_iff {ε : Type} {b : Bool} :
    bool (ε := ε) room value = .ok b ↔ value = .bool b := by
  cases value <;> simp [bool, refuse]

/-! ## Members -/

/-- What is known of a member that must not come twice. -/
inductive Slot (d : Decoder ε α) (room : Nat) : List Reading → Option α → Prop
  | empty : Slot d room [] none
  | filled {value : Reading} {a : α} (h : d room value = .ok a) : Slot d room [value] (some a)

theorem slot_concat_iff {found : Option α} : Slot d room (values ++ [value]) found ↔
    ∃ seen, Slot d room values seen ∧ once d room seen value = .ok found := by
  constructor
  · intro h
    cases values with
    | nil =>
      cases h with
      | filled h => exact ⟨none, .empty, map_eq_ok_iff.mpr ⟨_, h, rfl⟩⟩
    | cons first rest =>
      rw [List.cons_append] at h
      cases hrest : rest ++ [value] with
      | nil => simp at hrest
      | cons second others =>
        rw [hrest] at h
        cases h
  · rintro ⟨seen, hseen, honce⟩
    cases hseen with
    | empty =>
      obtain ⟨a, ha, rfl⟩ := map_eq_ok_iff.mp honce
      exact .filled ha
    | filled _ => contradiction

/-- A member that may be left out or be null. -/
inductive Field (d : Decoder ε α) (room : Nat) : List Reading → Option α → Prop
  | absent : Field d room [] none
  | null : Field d room [.null] none
  | value {value : Reading} {a : α} (hne : value ≠ .null) (h : d room value = .ok a) :
      Field d room [value] (some a)

theorem optional_eq_ok_iff {found : Option α} :
    optional d room value = .ok found ↔ Field d room [value] found := by
  constructor
  · intro h
    cases value with
    | null =>
      obtain rfl := Except.ok.inj h
      exact .null
    | _ =>
      obtain ⟨a, ha, rfl⟩ := map_eq_ok_iff.mp h
      exact .value (by simp) ha
  · intro h
    cases h with
    | null => rfl
    | value hne h =>
      rw [optional.eq_def]
      split
      · contradiction
      · exact map_eq_ok_iff.mpr ⟨_, h, rfl⟩

theorem field_iff_slot {found : Option α} :
    Field d room values found ↔ ∃ seen, Slot (optional d) room values seen ∧ seen.join = found := by
  constructor
  · intro h
    cases h with
    | absent => exact ⟨none, .empty, rfl⟩
    | null => exact ⟨some none, .filled rfl, rfl⟩
    | value hne h => exact ⟨some _, .filled (optional_eq_ok_iff.mpr (.value hne h)), rfl⟩
  · rintro ⟨seen, hseen, rfl⟩
    cases hseen with
    | empty => exact .absent
    | filled h => exact optional_eq_ok_iff.mp h

theorem Field.perm {values' : List Reading} {found : Option α} (h : Field d room values found)
    (hperm : values.Perm values') : Field d room values' found := by
  cases h with
  | absent =>
    obtain rfl := List.nil_perm.mp hperm
    exact .absent
  | null =>
    obtain rfl := List.singleton_perm.mp hperm
    exact .null
  | value hne h =>
    obtain rfl := List.singleton_perm.mp hperm
    exact .value hne h

end Decoder

end Daybook.Json
