/-! The configuration of the tracker, which the bridge serves and the viewer only shows. -/

namespace Daybook

/-- A named rule that matches windows. -/
structure Matcher where
  name : String
  pattern : String
deriving DecidableEq, Repr

structure Config where
  blacklist : List String := []
  matchers : List Matcher := []
  /-- Where the tracker keeps its database. -/
  location : Option String := none
deriving DecidableEq, Repr, Inhabited

end Daybook
