/-! Command lines made of long options: `--name value`, `--name=value`, and `--name` alone for a flag.
Every program also has `--help` and `--version`, with the short forms `-h` and `-V`. -/

namespace Daybook.CommandLine

/-- What an option takes after its name. -/
inductive Takes
  | nothing
  | anyValue
  | nonemptyValue
deriving DecidableEq, Repr

structure OptionSpec where
  name : String
  takes : Takes
deriving DecidableEq, Repr

inductive UsageError
  /-- A name that is no option, or a word that belongs to none. -/
  | unknownArgument
  /-- An option without its value, or with an empty one where it needs more. -/
  | invalidValue
  /-- An option given twice. -/
  | conflict
  /-- A value for a flag. -/
  | tooManyValues
  | help
  | version
deriving DecidableEq, Repr

/-- The line that shows what a program takes. -/
def usageLine (program : String) (specs : List OptionSpec) : String :=
  "Usage: " ++ program ++ String.join (specs.map fun spec =>
    " [--" ++ spec.name ++ (if spec.takes = .nothing then "]" else " <VALUE>]"))

/-- Help and version are what the user wants, all else is a mistake. -/
def UsageError.exitCode : UsageError → UInt32
  | help => 0
  | version => 0
  | _ => 2

def UsageError.message : UsageError → String
  | unknownArgument => "error: unexpected argument found"
  | invalidValue => "error: a value is required"
  | conflict => "error: an argument cannot be used multiple times"
  | tooManyValues => "error: unexpected value for an argument found"
  | help => ""
  | version => ""

/-- The options given so far with their values. A flag has an empty one. -/
abbrev Given := List (String × String)

/-- The options given so far, and one that is still open: its value may yet come, or has come and is
not looked at until the next argument. -/
structure Progress where
  given : Given := []
  pending : Option (OptionSpec × Option String) := none

/-- Takes an option with its value. -/
def record (given : Given) (spec : OptionSpec) (value : String) : Except UsageError Given :=
  if given.any (·.1 = spec.name) then .error .conflict
  else if spec.takes = .nonemptyValue ∧ value = "" then .error .invalidValue
  else .ok (given ++ [(spec.name, value)])

/-- Closes the open option, which needs its value by now. -/
def close (p : Progress) : Except UsageError Given :=
  match p.pending with
  | none => .ok p.given
  | some (_, none) => .error .invalidValue
  | some (spec, some value) => record p.given spec value

/-- Splits `name=value`. -/
def splitName (text : List Char) : List Char × Option (List Char) :=
  (text.takeWhile (· ≠ '='),
    match text.dropWhile (· ≠ '=') with
    | [] => none
    | _ :: value => some value)

/-- Takes a long option, which closes the open one. What is no option is an error before that. -/
def takeLong (specs : List OptionSpec) (p : Progress) (text : List Char) :
    Except UsageError Progress :=
  let (name, value) := splitName text
  let name := String.ofList name
  if name = "help" ∨ name = "version" then
    if value.isSome then .error .tooManyValues
    else do
      let _ ← close p
      .error (if name = "help" then .help else .version)
  else
    match specs.find? (·.name = name) with
    | none => .error .unknownArgument
    | some spec =>
      match spec.takes, value with
      | .nothing, some _ => .error .tooManyValues
      | .nothing, none => do
        let given ← close p
        return ⟨← record given spec "", none⟩
      | _, some value => do
        let given ← close p
        return ⟨← record given spec (String.ofList value), none⟩
      | _, none => do
        let given ← close p
        return ⟨given, some (spec, none)⟩

/-- Takes short options. There are only those for help and version. -/
def takeShort (p : Progress) : List Char → Except UsageError Progress
  | 'h' :: _ => do
    let _ ← close p
    .error .help
  | 'V' :: _ => do
    let _ ← close p
    .error .version
  | _ => .error .unknownArgument

/-- Takes a word that is no option: the value of the open option, if that has none. -/
def takeWord (p : Progress) (word : String) : Except UsageError Progress :=
  match p.pending with
  | some (spec, none) => .ok { p with pending := some (spec, some word) }
  | _ => .error .unknownArgument

/-- Reads the arguments. Two hyphens end the options, and no words may follow. -/
def parse (specs : List OptionSpec) : Progress → List String → Except UsageError Given
  | p, [] => close p
  | p, arg :: rest =>
    match arg.toList with
    | ['-', '-'] => if rest = [] then close p else .error .unknownArgument
    | '-' :: '-' :: text => do parse specs (← takeLong specs p text) rest
    | '-' :: c :: text => do parse specs (← takeShort p (c :: text)) rest
    | _ => do parse specs (← takeWord p arg) rest

def Given.value? (given : Given) (name : String) : Option String :=
  given.lookup name

end Daybook.CommandLine
