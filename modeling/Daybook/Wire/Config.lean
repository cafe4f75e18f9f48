import Daybook.Config.Basic
import Daybook.Json.Decode
import Daybook.Json.Value

/-! The configuration as JSON. Each part is an object, or an array of its fields in their order.
Sections may be left out and unknown members are passed over, but no known member may come twice. -/

namespace Daybook

open Json

variable {ε : Type}

namespace Matcher

def toJson (m : Matcher) : Json :=
  .object [("name", .string m.name), ("matcher", .string m.pattern)]

/-- The members met so far. -/
structure Seen where
  name : Option String := none
  pattern : Option String := none

def member (room : Nat) (seen : Seen) (key : String) (value : Reading) :
    Except (Option ε) Seen :=
  if key = "name" then
    (fun name => { seen with name }) <$> Decoder.once Decoder.string room seen.name value
  else if key = "matcher" then
    (fun pattern => { seen with pattern }) <$> Decoder.once Decoder.string room seen.pattern value
  else
    Decoder.ignore seen value

def decode : Decoder ε Matcher
  | room, .array items closed =>
    if room = 0 then Decoder.refuse
    else do
      let name ← Decoder.item Decoder.string (room - 1) items 0
      let pattern ← Decoder.item Decoder.string (room - 1) items 1
      if items.length = 2 ∧ closed then return ⟨name, pattern⟩ else Decoder.refuse
  | room, reading => do
    let seen ← Decoder.members member {} room reading
    match seen.name, seen.pattern with
    | some name, some pattern => return ⟨name, pattern⟩
    | _, _ => Decoder.refuse

end Matcher

namespace Config

/-- The section that holds the location. -/
def storageJson (location : Option String) : Json :=
  .object [("location", match location with
    | some path => .string path
    | none => .null)]

def toJson (c : Config) : Json :=
  .object [("blacklist", .array (c.blacklist.map .string)),
    ("matchers", .array (c.matchers.map Matcher.toJson)), ("storage", storageJson c.location)]

def storageMember (room : Nat) (seen : Option (Option String)) (key : String)
    (value : Reading) : Except (Option ε) (Option (Option String)) :=
  if key = "location" then Decoder.once (Decoder.optional Decoder.string) room seen value
  else Decoder.ignore seen value

def decodeStorage : Decoder ε (Option String)
  | room, .array items closed =>
    if room = 0 then Decoder.refuse
    else do
      let location ← Decoder.itemOr none (Decoder.optional Decoder.string) (room - 1) items 0
      if items.length ≤ 1 ∧ closed then return location else Decoder.refuse
  | room, reading => do
    let location ← Decoder.members storageMember none room reading
    return location.join

/-- The members met so far. -/
structure Seen where
  blacklist : Option (List String) := none
  matchers : Option (List Matcher) := none
  location : Option (Option String) := none

def member (room : Nat) (seen : Seen) (key : String) (value : Reading) :
    Except (Option ε) Seen :=
  if key = "blacklist" then
    (fun blacklist => { seen with blacklist }) <$>
      Decoder.once (Decoder.list Decoder.string) room seen.blacklist value
  else if key = "matchers" then
    (fun matchers => { seen with matchers }) <$>
      Decoder.once (Decoder.list Matcher.decode) room seen.matchers value
  else if key = "storage" then
    (fun location => { seen with location }) <$>
      Decoder.once decodeStorage room seen.location value
  else
    Decoder.ignore seen value

def decode : Decoder ε Config
  | room, .array items closed =>
    if room = 0 then Decoder.refuse
    else do
      let blacklist ← Decoder.itemOr [] (Decoder.list Decoder.string) (room - 1) items 0
      let matchers ← Decoder.itemOr [] (Decoder.list Matcher.decode) (room - 1) items 1
      let location ← Decoder.itemOr none decodeStorage (room - 1) items 2
      if items.length ≤ 3 ∧ closed then return ⟨blacklist, matchers, location⟩
      else Decoder.refuse
  | room, reading => do
    let seen ← Decoder.members member {} room reading
    return ⟨seen.blacklist.getD [], seen.matchers.getD [], seen.location.getD none⟩

end Config

end Daybook
