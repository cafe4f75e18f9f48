import Daybook.Activity.Path
import Daybook.Activity.Record
import Daybook.Text.Units16

/-! The timeline of a day: a bar for each record, in the color of its executable. -/

namespace Daybook

namespace Palette

/-- The colors of executables. -/
def colors : Vector String 20 :=
  #v["#3366cc", "#dc3912", "#ff9900", "#109618", "#990099", "#0099c6", "#dd4477", "#66aa00",
    "#b82e2e", "#316395", "#994499", "#22aa99", "#aaaa11", "#6633cc", "#e67300", "#8b0707",
    "#651067", "#329262", "#5574a6", "#3b3eac"]

/-- A polynomial in 31 over the code units, in 32 bits. -/
def hash (name : String) : Int32 :=
  (Text.units16 name).foldl (fun h unit => h * 31 + Int32.ofNat unit) 0

/-- The place of the color of a name. The remainder has the sign of the hash, and the place has none. -/
def place (name : String) : Nat :=
  (hash name % 20).toInt.natAbs

theorem place_eq (name : String) : place name = (hash name).toInt.natAbs % 20 := by
  rw [place, Int32.toInt_mod, Int.natAbs_tmod]
  rfl

theorem place_lt (name : String) : place name < 20 :=
  place_eq name ▸ Nat.mod_lt _ (by decide)

/-- The color of a name depends on nothing but the name. -/
def colorOf (name : String) : String :=
  colors.get ⟨place name, place_lt name⟩

end Palette

/-- One bar of the timeline. -/
structure Bar where
  name : String
  title : String
  start : Int64
  stop : Int64
deriving DecidableEq, Repr

def Bar.color (b : Bar) : String :=
  Palette.colorOf b.name

def Bar.ofRecord (r : Record) : Bar :=
  ⟨Path.lastSegment r.path, r.title, r.start, r.stop⟩

def timeline (records : List Record) : List Bar :=
  records.map Bar.ofRecord

end Daybook
