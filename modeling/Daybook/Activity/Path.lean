/-! Paths of executables, from systems that separate with slashes and from those that separate with
backslashes. -/

namespace Daybook.Path

def isSeparator (c : Char) : Bool :=
  c = '/' || c = '\\'

/-- What follows the last separator; the whole path if there is none. -/
def lastSegment (path : String) : String :=
  String.ofList (path.toList.reverse.takeWhile (!isSeparator ·)).reverse

theorem not_isSeparator_of_mem_lastSegment {path : String} {c : Char}
    (h : c ∈ (lastSegment path).toList) : ¬isSeparator c := by
  simp only [lastSegment, String.toList_ofList, List.mem_reverse] at h
  have := List.all_takeWhile (l := path.toList.reverse) (p := fun c => !isSeparator c)
  simp only [List.all_eq_true] at this
  simpa using this c h

end Daybook.Path
