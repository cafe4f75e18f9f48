/-! What is known of the user's activity: single intervals, and amounts of time per executable. -/

namespace Daybook

/-- An interval in which one window had the focus; times are milliseconds after 1970. -/
structure Record where
  start : Int64
  stop : Int64
  pid : Int64
  path : String
  title : String
deriving DecidableEq, Repr

/-- An amount of time spent in an executable, in milliseconds. Several amounts may name one path. -/
structure Usage where
  path : String
  amount : Int64
deriving DecidableEq, Repr

/-- The length of the interval. One that ends before it starts has a negative length. -/
def Record.entry (r : Record) : String × Int :=
  (r.path, r.stop.toInt - r.start.toInt)

def Usage.entry (u : Usage) : String × Int :=
  (u.path, u.amount.toInt)

end Daybook
