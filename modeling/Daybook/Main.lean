import Daybook.Bridge.Launch
import Daybook.Viewer.Program
import Daybook.Wire.Row
import Std.Time

/-! The command line. `serve` answers requests, one a line, from a table in a file of rows; `view` prints
a selection of what the bridge of the working directory serves. -/

namespace Daybook.Shell

open CommandLine

def complain (text : String) : IO Unit := do
  (← IO.getStderr).putStrLn text

/-- Ends a program whose arguments are not there to run it. -/
def refuse (program version : String) (specs : List OptionSpec) (e : UsageError) : IO UInt32 := do
  match e with
  | .help => IO.println (usageLine program specs)
  | .version => IO.println version
  | _ =>
    complain e.message
    complain (usageLine program specs)
  return e.exitCode

def readConfig (path : String) : IO Config.File := do
  try
    return .content (← IO.FS.readBinFile path)
  catch
    | .noFileOrDirectory _ _ _ => return .absent
    | _ => return .directory

/-- The rows in a file. A file without rows is a database without the table. -/
def readTable (path : String) : IO (Option (Option (List Table.Row))) := do
  try
    return some (Table.rows? .strict (← IO.FS.readFile path))
  catch _ =>
    return none

def offsetOf (t : Std.Time.TimeZone.LocalTimeType) : Offset :=
  (Offset.of? t.gmtOffset.second.val).getD .utc

/-- The zone of the machine, or UTC where the machine does not tell. -/
def localZone : IO Zone := do
  try
    let rules ← Std.Time.Database.defaultGetLocalZoneRules
    return ⟨offsetOf rules.initialLocalTimeType,
      rules.transitions.toList.map fun t => (t.time.val, offsetOf t.localTimeType)⟩
  catch _ =>
    return .utc

def clock : IO Viewer.Clock := do
  let now ← Std.Time.Timestamp.now
  match Instant.ofMillis? now.toMillisecondsSinceUnixEpoch.val with
  | some now => return ⟨now, ← localZone⟩
  | none => throw (.userError "the clock is outside the calendar")

/-- Answers the requests on standard input until it ends. -/
partial def answerLines (bridge : Bridge) : IO Unit := do
  let line ← (← IO.getStdin).getLine
  unless line.isEmpty do
    let response := match Http.Request.ofLine? (line.trimAsciiEnd.toString) with
      | some request => bridge.answer request
      | none => .malformed
    response.lines.forM IO.println
    answerLines bridge

def serve (argv : List String) : IO UInt32 := do
  match BridgeArgs.parse argv with
  | .error e => refuse "serve" BridgeArgs.version bridgeOptions e
  | .ok args =>
    match ← (Bridge.launch args readConfig readTable).run with
    | .error e =>
      complain ("Error: " ++ e.message)
      return 1
    | .ok (bridge, _) =>
      answerLines bridge
      return 0

/-- The network with the bridge of the working directory, if one can be launched there. -/
def localNetwork : IO Http.Network := do
  match BridgeArgs.parse [] with
  | .error _ => return .unreachable
  | .ok args =>
    match ← (Bridge.launch args readConfig readTable).run with
    | .error _ => return .unreachable
    | .ok (bridge, socket) => return bridge.networkAt socket

def view (argv : List String) : IO UInt32 := do
  match ViewerArgs.parse argv with
  | .error e => refuse "view" ViewerArgs.version viewerOptions e
  | .ok args =>
    let run := Viewer.run args (← clock) (← localNetwork)
    run.warnings.forM fun w => complain w.message
    IO.print run.output
    run.complaint.forM complain
    return run.exitCode

end Daybook.Shell

def main (args : List String) : IO UInt32 := do
  match args with
  | "serve" :: rest => Daybook.Shell.serve rest
  | "view" :: rest => Daybook.Shell.view rest
  | _ =>
    Daybook.Shell.complain "Usage: serve [OPTIONS] | view [OPTIONS]"
    return 2
