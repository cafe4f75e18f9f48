import Daybook.Json.Reading

/-! Decoders from readings to domain values. They go through a text from left to right and report
what they meet first. `room` is how many containers may still be opened. -/

namespace Daybook.Json

/-- A decoder that fails with a reason of type `ε`, or without one where the text is no JSON or
has the wrong shape. -/
abbrev Decoder (ε α : Type) := Nat → Reading → Except (Option ε) α

namespace Decoder

variable {ε α σ : Type}

def refuse : Except (Option ε) α :=
  .error none

/-- Containers that may be open at once. -/
def roomiest : Nat := 127

/-- Decodes a text that holds one value. -/
def run (d : Decoder ε α) (text : List Char) : Except (Option ε) α :=
  match Reading.ofText text with
  | (reading, clean) => do
    let value ← d roomiest reading
    if clean then return value else refuse

def bool : Decoder ε Bool
  | _, .bool b => .ok b
  | _, _ => refuse

def int64 : Decoder ε Int64
  | _, .number n =>
    match n.toInt64? with
    | some value => .ok value
    | none => refuse
  | _, _ => refuse

def string : Decoder ε String
  | _, .string (some text) => .ok text
  | _, _ => refuse

/-- A value or `null`. -/
def optional (d : Decoder ε α) : Decoder ε (Option α)
  | _, .null => .ok none
  | room, reading => some <$> d room reading

/-- An array of any length. -/
def list (d : Decoder ε α) : Decoder ε (List α)
  | room, .array items closed =>
    if room = 0 then refuse
    else do
      let values ← items.mapM (d (room - 1))
      if closed then return values else refuse
  | _, _ => refuse

/-- The item of an array at a position. -/
def item (d : Decoder ε α) (room : Nat) (items : List Reading) (index : Nat) :
    Except (Option ε) α :=
  match items[index]? with
  | some reading => d room reading
  | none => refuse

/-- The item of an array at a position, or a default where the array ends before it. -/
def itemOr (default : α) (d : Decoder ε α) (room : Nat) (items : List Reading) (index : Nat) :
    Except (Option ε) α :=
  match items[index]? with
  | some reading => d room reading
  | none => .ok default

/-- Goes through the members of an object in order. -/
def members (step : Nat → σ → String → Reading → Except (Option ε) σ) (start : σ) : Decoder ε σ
  | room, .object members closed =>
    if room = 0 then refuse
    else do
      let result ← members.foldlM (fun state (key, value) =>
        match key with
        | some key => step (room - 1) state key value
        | none => refuse) start
      if closed then return result else refuse
  | _, _ => refuse

/-- Decodes a member that must not come twice. -/
def once (d : Decoder ε α) (room : Nat) (seen : Option α) (reading : Reading) :
    Except (Option ε) (Option α) :=
  if seen.isSome then refuse else some <$> d room reading

/-- Passes over a member that nobody knows. -/
def ignore (state : σ) (reading : Reading) : Except (Option ε) σ :=
  if reading.isWhole then .ok state else refuse

/-- Any value at all. -/
def anything : Decoder ε Unit
  | room, reading => if reading.isSound room then .ok () else refuse

end Decoder

end Daybook.Json
