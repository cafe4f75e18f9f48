import Daybook.Http.Target

/-! Requests and responses, as far as the programs look at them. -/

namespace Daybook.Http

structure Request where
  method : String
  target : Target
deriving DecidableEq, Repr

structure Response where
  status : Nat
  headers : List (String × String)
  /-- The text of a JSON body. -/
  body : Option String
deriving DecidableEq, Repr

namespace Request

/-- The marks that may stand in the name of a method beside letters and digits. -/
def methodMarks : List Char :=
  "!#$%&'*+-.^_`|~".toList

def isMethod (text : String) : Bool :=
  !text.isEmpty && text.toList.all fun c => c.isAlphanum || methodMarks.contains c

/-- The request that a method and the text of a target make. -/
def ofTexts? (method target : String) : Option Request :=
  if isMethod method then (Target.ofText? target).map (⟨method, ·⟩) else none

/-- Reads a method and a target with a space between them; a target alone is got. -/
def ofLine? (line : String) : Option Request :=
  match (line.toList.takeWhile (· ≠ ' '), (line.toList.dropWhile (· ≠ ' ')).drop 1) with
  | (target, []) => ofTexts? "GET" (String.ofList target)
  | (method, target) => ofTexts? (String.ofList method) (String.ofList target)

end Request

/-- The response to what is no request. -/
def Response.malformed : Response :=
  ⟨400, [], none⟩

/-- Status, headers and body, each on a line of its own. An empty line stands before the body and at
the end. -/
def Response.lines (r : Response) : List String :=
  toString r.status :: r.headers.map (fun (name, value) => name ++ ": " ++ value) ++
    (match r.body with
    | some body => ["", body]
    | none => []) ++ [""]

end Daybook.Http
