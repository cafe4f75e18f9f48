import Daybook.Json.Numeral
import Daybook.Json.Quoted

/-! JSON values that the programs write, on one line or indented. -/

namespace Daybook

/-- The members of an object keep the order in which they are written. -/
inductive Json
  | null
  | bool (b : Bool)
  | int (n : Int)
  | string (text : String)
  | array (items : List Json)
  | object (members : List (String × Json))
deriving Inhabited

namespace Json

/-- The blanks of a written value: before each item or member and before the end of a container that
has any, and after each colon. -/
structure Style where
  newline (level : Nat) : List Char
  afterColon : List Char

/-- No blanks at all. -/
def Style.compact : Style :=
  ⟨fun _ => [], []⟩

/-- A line for each item or member, with two spaces for each level. -/
def Style.indented : Style :=
  ⟨fun level => '\n' :: List.replicate (2 * level) ' ', [' ']⟩

mutual

def write (s : Style) (level : Nat) : Json → List Char
  | null => ['n', 'u', 'l', 'l']
  | bool true => ['t', 'r', 'u', 'e']
  | bool false => ['f', 'a', 'l', 's', 'e']
  | int n => Text.signed n
  | string text => Quoted.write text
  | array [] => ['[', ']']
  | array (item :: items) =>
    '[' :: s.newline (level + 1) ++ write s (level + 1) item ++ writeItems s (level + 1) items ++
      s.newline level ++ [']']
  | object [] => ['{', '}']
  | object ((key, value) :: members) =>
    '{' :: s.newline (level + 1) ++ Quoted.write key ++ ':' :: s.afterColon ++
      write s (level + 1) value ++ writeMembers s (level + 1) members ++ s.newline level ++ ['}']

def writeItems (s : Style) (level : Nat) : List Json → List Char
  | [] => []
  | item :: items => ',' :: s.newline level ++ write s level item ++ writeItems s level items

def writeMembers (s : Style) (level : Nat) : List (String × Json) → List Char
  | [] => []
  | (key, value) :: members =>
    ',' :: s.newline level ++ Quoted.write key ++ ':' :: s.afterColon ++ write s level value ++
      writeMembers s level members

end

/-- The value on one line. -/
def text (value : Json) : String :=
  String.ofList (value.write .compact 0)

/-- The value on indented lines. -/
def pretty (value : Json) : String :=
  String.ofList (value.write .indented 0)

def ofInt64 (n : Int64) : Json :=
  int n.toInt

end Json

end Daybook
