import Daybook.Net.Reader
import Daybook.Text.Whole

/-! Where the bridge listens. -/

namespace Daybook.Bridge

open Net

def defaultPort : UInt16 := 17700

def localhost : IPv4 := ⟨127, 0, 0, 1⟩

inductive ListenError
  /-- The port after `localhost:` is no port. -/
  | badPort (text : String)
  | unreadable (text : String)
deriving DecidableEq, Repr

def ListenError.message : ListenError → String
  | badPort text => "invalid --listen '" ++ text ++ "': bad port. Example: 127.0.0.1:17700"
  | unreadable text =>
    "invalid --listen '" ++ text ++
      "'. Use ip:port (e.g. 127.0.0.1:17700) or ip (e.g. 127.0.0.1)."

/-- The text after `localhost:`, if no further colon is in it. -/
def localPort? (text : List Char) : Option (List Char) :=
  let word := "localhost:".toList
  if text.take word.length = word ∧ ':' ∉ text.drop word.length then some (text.drop word.length)
  else none

/-- A socket address, an address alone, or `localhost` with or without a port. -/
def readListen (input : String) : Except ListenError Socket :=
  let text := input.toList
  match Socket.read? text with
  | some socket => .ok socket
  | none =>
    match Ip.read? text with
    | some ip => .ok (ip.socket defaultPort)
    | none =>
      if text = "localhost".toList then .ok (.v4 localhost defaultPort)
      else
        match localPort? text with
        | none => .error (.unreadable input)
        | some port =>
          match (Text.readNat? port).filter (· ≤ 65535) with
          | some n => .ok (.v4 localhost (UInt16.ofNat n))
          | none => .error (.badPort input)

end Daybook.Bridge
