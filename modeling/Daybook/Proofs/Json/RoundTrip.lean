import Daybook.Proofs.Json.Grammar

/-! # Written values are read back

A value that is written, in any style with nothing but blanks between the marks, is in the grammar. So
its text has the reading of the value. -/

namespace Daybook.Json

/-! ## The reading of a value -/

mutual

/-- What a reader sees of a value that is written in full. -/
def reading : Json → Reading
  | null => .null
  | bool b => .bool b
  | int n => .number (.ofInt n)
  | string text => .string (some text)
  | array items => .array (readings items) true
  | object members => .object (memberReadings members) true

def readings : List Json → List Reading
  | [] => []
  | item :: items => item.reading :: readings items

def memberReadings : List (String × Json) → List (Option String × Reading)
  | [] => []
  | (key, value) :: members => (some key, value.reading) :: memberReadings members

end

/-! ## Styles -/

open Reading

/-- Only blanks stand between the marks of a written value. -/
structure Style.IsBlank (s : Style) : Prop where
  newline (level : Nat) : Blank (s.newline level)
  afterColon : Blank s.afterColon

theorem Style.isBlank_compact : compact.IsBlank where
  newline _ := blank_nil
  afterColon := blank_nil

theorem Style.isBlank_indented : indented.IsBlank where
  newline level := by simp [indented, Blank, isSpace]
  afterColon := by simp [indented, Blank, isSpace]

mutual

/-- On one line the level does not matter. -/
theorem write_compact (level : Nat) (value : Json) :
    write .compact level value = write .compact 0 value := by
  match value with
  | null | bool true | bool false | int _ | string _ | array [] | object [] => rfl
  | array (item :: items) =>
    rw [write, write, write_compact (level + 1) item, write_compact (0 + 1) item,
      writeItems_compact (level + 1) items, writeItems_compact (0 + 1) items]
    rfl
  | object ((key, value) :: members) =>
    rw [write, write, write_compact (level + 1) value, write_compact (0 + 1) value,
      writeMembers_compact (level + 1) members, writeMembers_compact (0 + 1) members]
    rfl

theorem writeItems_compact (level : Nat) (items : List Json) :
    writeItems .compact level items = writeItems .compact 0 items := by
  match items with
  | [] => rfl
  | item :: items =>
    rw [writeItems, writeItems, write_compact level item, writeItems_compact level items]
    rfl

theorem writeMembers_compact (level : Nat) (members : List (String × Json)) :
    writeMembers .compact level members = writeMembers .compact 0 members := by
  match members with
  | [] => rfl
  | (key, value) :: members =>
    rw [writeMembers, writeMembers, write_compact level value, writeMembers_compact level members]
    rfl

end

/-! ## Written values are in the grammar -/

theorem join?_write (text : String) :
    (Quoted.join? (text.toList.map .char)).map String.ofList = some text := by
  rw [Quoted.join?_char, Option.map_some, String.ofList_toList]

variable {s : Style}

mutual

theorem spells_write (hs : s.IsBlank) (value : Json) (level : Nat) :
    Spells (write s level value) value.reading := by
  match value with
  | null => exact .null
  | bool true => exact .true
  | bool false => exact .false
  | int n => exact .number (Numeral.spells_signed n)
  | string text =>
    rw [reading, ← join?_write text]
    exact .string (Quoted.spells_flatMap_escape _)
  | array [] => exact .emptyArray blank_nil
  | array (item :: items) =>
    have hitem := spells_write hs item (level + 1)
    rw [write, reading, readings]
    simpa using Spells.array (spellsItems_write hs hitem (hs.newline level) items)
  | object [] => exact .emptyObject blank_nil
  | object ((key, value) :: members) =>
    have hvalue := spells_write hs value (level + 1)
    rw [write, reading, memberReadings]
    simpa using Spells.object (spellsMembers_write hs key hvalue (hs.newline level) members)

theorem spellsItems_write (hs : s.IsBlank) {item : Json} {level : Nat} {after : List Char}
    (hitem : Spells (write s level item) item.reading) (hafter : Blank after) (items : List Json) :
    SpellsItems (s.newline level ++ (write s level item ++ (writeItems s level items ++ after)))
      (item.reading :: readings items) := by
  match items with
  | [] => exact .last (.intro (hs.newline level) hitem hafter)
  | next :: items =>
    have hnext := spellsItems_write hs (spells_write hs next level) hafter items
    have hfirst := Holds.intro (hs.newline level) hitem blank_nil
    rw [writeItems, readings]
    simpa using SpellsItems.cons hfirst hnext

theorem spellsMembers_write (hs : s.IsBlank) (key : String) {value : Json} {level : Nat}
    {after : List Char} (hvalue : Spells (write s level value) value.reading)
    (hafter : Blank after) (members : List (String × Json)) :
    SpellsMembers (s.newline level ++ (Quoted.write key ++ ':' :: (s.afterColon ++
        (write s level value ++ (writeMembers s level members ++ after)))))
      ((some key, value.reading) :: memberReadings members) := by
  have hkey := Quoted.spells_flatMap_escape key.toList
  match members with
  | [] =>
    have hlast := Holds.intro hs.afterColon hvalue hafter
    rw [← join?_write key]
    simpa [Quoted.write, writeMembers, memberReadings] using
      SpellsMembers.last (hs.newline level) hkey blank_nil hlast
  | (next, nextValue) :: members =>
    have hnext := spellsMembers_write hs next (spells_write hs nextValue level) hafter members
    have hfirst := Holds.intro hs.afterColon hvalue blank_nil
    rw [← join?_write key, writeMembers, memberReadings]
    simpa [Quoted.write] using
      SpellsMembers.cons (hs.newline level) hkey blank_nil hfirst hnext

end

/-- A written value is in its text, whatever blanks follow it. -/
theorem holds_write (hs : s.IsBlank) (value : Json) (level : Nat) {rest : List Char}
    (hrest : Blank rest) : Holds (write s level value ++ rest) value.reading :=
  .intro blank_nil (spells_write hs value level) hrest

theorem holds_text (value : Json) : Holds value.text.toList value.reading := by
  have h := holds_write Style.isBlank_compact value 0 blank_nil
  rw [List.append_nil] at h
  rw [text, String.toList_ofList]
  exact h

theorem ofText_text (value : Json) : ofText value.text.toList = (value.reading, true) :=
  ofText_eq_iff.mpr (holds_text value)

end Daybook.Json
