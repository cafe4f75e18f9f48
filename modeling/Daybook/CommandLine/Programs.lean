import Daybook.CommandLine.Parser

/-! The arguments of the two programs. -/

namespace Daybook.CommandLine

/-- The arguments of the viewer. -/
structure ViewerArgs where
  bridgeUrl : String
  start : Option String
  stop : Option String
  showConfig : Bool
deriving DecidableEq, Repr

def ViewerArgs.version : String :=
  "trackme 0.1.0"

def viewerOptions : List OptionSpec :=
  [⟨"bridge-url", .anyValue⟩, ⟨"from", .anyValue⟩, ⟨"to", .anyValue⟩, ⟨"show-config", .nothing⟩]

def ViewerArgs.parse (args : List String) : Except UsageError ViewerArgs := do
  let given ← CommandLine.parse viewerOptions {} args
  return {
    bridgeUrl := (given.value? "bridge-url").getD "http://127.0.0.1:17700"
    start := given.value? "from"
    stop := given.value? "to"
    showConfig := (given.value? "show-config").isSome }

/-- The arguments of the bridge. -/
structure BridgeArgs where
  listen : String
  db : Option String
  config : String
deriving DecidableEq, Repr

def BridgeArgs.version : String :=
  "trackme_bridge 0.1.0"

def bridgeOptions : List OptionSpec :=
  [⟨"listen", .anyValue⟩, ⟨"db", .nonemptyValue⟩, ⟨"config", .nonemptyValue⟩]

def BridgeArgs.parse (args : List String) : Except UsageError BridgeArgs := do
  let given ← CommandLine.parse bridgeOptions {} args
  return {
    listen := (given.value? "listen").getD "127.0.0.1:17700"
    db := given.value? "db"
    config := (given.value? "config").getD "./config.json" }

end Daybook.CommandLine
