import Daybook.Json.Numeral
import Daybook.Json.Quoted

/-! What a reader sees of a JSON text, from left to right. Where the text stops to be JSON there is a
mark, and all containers around it stay open, so that whoever decodes a reading meets the mark just
where the text breaks. -/

namespace Daybook.Json

inductive Reading
  /-- The text is no JSON from here on. -/
  | broken
  | null
  | bool (b : Bool)
  | number (n : Numeral)
  /-- A string; none if one of its escapes is a lone surrogate. -/
  | string (text : Option String)
  | array (items : List Reading) (closed : Bool)
  | object (members : List (Option String × Reading)) (closed : Bool)
deriving Inhabited

namespace Reading

def isSpace (c : Char) : Bool :=
  c = ' ' || c = '\t' || c = '\n' || c = '\r'

def skipSpace (text : List Char) : List Char :=
  text.dropWhile isSpace

/-- Reads a string after its opening mark. -/
def takeString? (text : List Char) : Option (Option String × List Char) :=
  (Quoted.take? text).map fun (pieces, rest) => ((Quoted.join? pieces).map String.ofList, rest)

/-- Reads a word that is spelled out in full. -/
def takeWord? : List Char → Option (Reading × List Char)
  | 'n' :: 'u' :: 'l' :: 'l' :: rest => some (null, rest)
  | 't' :: 'r' :: 'u' :: 'e' :: rest => some (bool true, rest)
  | 'f' :: 'a' :: 'l' :: 's' :: 'e' :: rest => some (bool false, rest)
  | _ => none

/-- Reads a value that is no container. -/
def takeScalar : List Char → Reading × Option (List Char)
  | '"' :: rest =>
    match takeString? rest with
    | some (text, rest) => (string text, some rest)
    | none => (broken, none)
  | text =>
    match takeWord? text with
    | some (word, rest) => (word, some rest)
    | none =>
      match Numeral.take? text with
      | some (n, rest) => (number n, some rest)
      | none => (broken, none)

mutual

/-- Reads a value; also gives the text after it, unless the value is broken. -/
def take : Nat → List Char → Reading × Option (List Char)
  | 0, _ => (broken, none)
  | fuel + 1, text =>
    match skipSpace text with
    | '[' :: rest =>
      match skipSpace rest with
      | ']' :: rest => (array [] true, some rest)
      | rest =>
        let (items, rest) := takeItems fuel rest
        (array items rest.isSome, rest)
    | '{' :: rest =>
      match skipSpace rest with
      | '}' :: rest => (object [] true, some rest)
      | rest =>
        let (members, rest) := takeMembers fuel rest
        (object members rest.isSome, rest)
    | text => takeScalar text

/-- Reads the items of an array up to its closing bracket. -/
def takeItems : Nat → List Char → List Reading × Option (List Char)
  | 0, _ => ([], none)
  | fuel + 1, text =>
    match take fuel text with
    | (item, none) => ([item], none)
    | (item, some rest) =>
      match skipSpace rest with
      | ']' :: rest => ([item], some rest)
      | ',' :: rest =>
        let (items, rest) := takeItems fuel rest
        (item :: items, rest)
      | _ => ([item], none)

/-- Reads the members of an object up to its closing brace. -/
def takeMembers : Nat → List Char → List (Option String × Reading) × Option (List Char)
  | 0, _ => ([], none)
  | fuel + 1, text =>
    match skipSpace text with
    | '"' :: rest =>
      match takeString? rest with
      | none => ([], none)
      | some (key, rest) =>
        match skipSpace rest with
        | ':' :: rest =>
          match take fuel rest with
          | (value, none) => ([(key, value)], none)
          | (value, some rest) =>
            match skipSpace rest with
            | '}' :: rest => ([(key, value)], some rest)
            | ',' :: rest =>
              let (members, rest) := takeMembers fuel rest
              ((key, value) :: members, rest)
            | _ => ([(key, value)], none)
        | _ => ([(key, broken)], none)
    | _ => ([], none)

end

/-- A text as one value, and whether nothing but white space follows the value. Each character is
passed by two steps at most. -/
def ofText (text : List Char) : Reading × Bool :=
  match take (2 * text.length + 2) text with
  | (value, some rest) => (value, (skipSpace rest).isEmpty)
  | (value, none) => (value, false)

mutual

/-- The reading is of a whole value, whatever its numbers, escapes and depth. -/
def isWhole : Reading → Bool
  | broken => false
  | array items closed => closed && areWhole items
  | object members closed => closed && haveWhole members
  | _ => true

def areWhole : List Reading → Bool
  | [] => true
  | item :: items => item.isWhole && areWhole items

def haveWhole : List (Option String × Reading) → Bool
  | [] => true
  | (_, value) :: members => value.isWhole && haveWhole members

end

mutual

/-- The reading is of a whole value whose strings are texts, whose numbers are finite and that has
no more than `room` containers inside each other. -/
def isSound (room : Nat) : Reading → Bool
  | broken => false
  | null => true
  | bool _ => true
  | number n => !n.overflows
  | string text => text.isSome
  | array items closed => room ≠ 0 && closed && areSound (room - 1) items
  | object members closed => room ≠ 0 && closed && haveSound (room - 1) members

def areSound (room : Nat) : List Reading → Bool
  | [] => true
  | item :: items => item.isSound room && areSound room items

def haveSound (room : Nat) : List (Option String × Reading) → Bool
  | [] => true
  | (key, value) :: members => key.isSome && value.isSound room && haveSound room members

end

end Reading

end Daybook.Json
