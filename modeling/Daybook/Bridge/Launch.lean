import Daybook.Bridge.Answer
import Daybook.Bridge.Listen
import Daybook.CommandLine.Programs
import Daybook.Config.File

/-! How the bridge starts: it reads the configuration, opens the database and then reads the address
to listen on. -/

namespace Daybook.Bridge

open CommandLine

inductive LaunchError
  | config (e : Config.LoadError)
  /-- The database cannot be opened. -/
  | database
  | listen (e : ListenError)
deriving DecidableEq, Repr

def LaunchError.message : LaunchError → String
  | config .unreadable => "the configuration file cannot be read"
  | config .invalid => "the configuration file holds no configuration"
  | database => "the database cannot be opened"
  | listen e => e.message

/-- The database that is asked for, else the one that the configuration names. -/
def databasePath (args : BridgeArgs) (config : Config) : String :=
  (args.db.or config.location).getD "./data/trackme.db"

/-- Reads all that the bridge needs before it opens its port. `openDatabase` gives the table of a
database, or none if there is no database at the path. -/
def launch {m : Type → Type} [Monad m] (args : BridgeArgs) (readFile : String → m Config.File)
    (openDatabase : String → m (Option (Option (List Table.Row)))) :
    ExceptT LaunchError m (Bridge × Net.Socket) := do
  let file ← readFile args.config
  let config ← MonadExcept.ofExcept ((Config.load file).mapError .config)
  match ← openDatabase (databasePath args config) with
  | none => throw .database
  | some table =>
    let socket ← MonadExcept.ofExcept ((readListen args.listen).mapError .listen)
    return (⟨table, config⟩, socket)

end Daybook.Bridge
