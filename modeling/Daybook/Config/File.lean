import Daybook.Wire.Config

/-! The configuration file. Without one the configuration is empty. -/

namespace Daybook.Config

/-- What the file system holds at the path of the configuration. -/
inductive File
  | absent
  | directory
  | content (bytes : ByteArray)

inductive LoadError
  /-- The file cannot be read as text. -/
  | unreadable
  /-- The text is no configuration. -/
  | invalid
deriving DecidableEq, Repr

def ofText (text : String) : Except LoadError Config :=
  (Json.Decoder.run (decode (ε := Empty)) text.toList).mapError fun _ => .invalid

def load : File → Except LoadError Config
  | .absent => .ok {}
  | .directory => .error .unreadable
  | .content bytes =>
    match String.fromUTF8? bytes with
    | some text => ofText text
    | none => .error .unreadable

end Daybook.Config
