import Daybook.Activity.Path
import Mathlib.Data.List.DropRight

/-! # The last segments of paths

A path ends in just one text that is a segment of its own, its last segment. Nothing that stands before a
separator matters for it. -/

namespace Daybook.Path

variable {path name : String} {c : Char}

theorem isSeparator_iff : isSeparator c ↔ c = '/' ∨ c = '\\' := by
  rw [isSeparator, Bool.or_eq_true, decide_eq_true_eq, decide_eq_true_eq]

theorem toList_lastSegment (path : String) :
    (lastSegment path).toList = path.toList.rtakeWhile (!isSeparator ·) :=
  String.toList_ofList

/-- Where nothing is separated the last segment is all there is. -/
theorem lastSegment_of_forall_not_isSeparator (h : ∀ c ∈ path.toList, ¬isSeparator c) :
    lastSegment path = path := by
  rw [← String.toList_inj, toList_lastSegment, List.rtakeWhile_eq_self_iff]
  simpa using h

@[simp]
theorem lastSegment_lastSegment (path : String) :
    lastSegment (lastSegment path) = lastSegment path :=
  lastSegment_of_forall_not_isSeparator fun _ => not_isSeparator_of_mem_lastSegment

/-! ## Paths that grow at their ends -/

/-- A separator starts a segment that is still empty, any other character belongs to the last one. -/
theorem lastSegment_push (path : String) (c : Char) :
    lastSegment (path.push c) = if isSeparator c then "" else (lastSegment path).push c := by
  rw [← String.toList_inj, toList_lastSegment, String.toList_push, List.rtakeWhile_concat]
  by_cases hc : isSeparator c
  · simp [hc]
  · simp [hc, toList_lastSegment]

theorem append_push (s t : String) (c : Char) : s ++ t.push c = (s ++ t).push c := by
  rw [String.push_eq_append, ← String.append_assoc, String.append_singleton]

/-- Nothing that stands before a separator matters. -/
theorem lastSegment_push_append (hc : isSeparator c) (front rest : String) :
    lastSegment (front.push c ++ rest) = lastSegment rest := by
  -- Both paths grow by the same characters, and start from one that ends in a separator and from none.
  induction rest using String.push_induction with
  | empty =>
    rw [String.append_empty, lastSegment_push, if_pos hc]
    rfl
  | push rest d ih => rw [append_push, lastSegment_push, ih, lastSegment_push]

/-- A path is a single segment, or its last segment follows a separator. -/
theorem split_lastSegment (path : String) : path = lastSegment path ∨
    ∃ (front : String) (c : Char), isSeparator c ∧ path = front.push c ++ lastSegment path := by
  -- What follows the last separator grows with the path, until a separator puts all of it in front.
  induction path using String.push_induction with
  | empty => exact .inl rfl
  | push path c ih =>
    by_cases hc : isSeparator c
    · rw [lastSegment_push, if_pos hc]
      exact .inr ⟨path, c, hc, String.append_empty.symm⟩
    · rw [lastSegment_push, if_neg hc]
      rcases ih with hwhole | ⟨front, d, hd, hbehind⟩
      · exact .inl (congrArg (String.push · c) hwhole)
      · refine .inr ⟨front, d, hd, ?_⟩
        rw [append_push, ← hbehind]

/-! ## Endings -/

/-- The name stands at the end of the path as a segment of its own: neither of the two separators is in
it, and it is the path itself or follows one of them. -/
structure EndsIn (path name : String) : Prop where
  plain : '/' ∉ name.toList ∧ '\\' ∉ name.toList
  split : path = name ∨ ∃ (front : String) (c : Char), (c = '/' ∨ c = '\\') ∧
    path = front.push c ++ name

theorem endsIn_lastSegment (path : String) : EndsIn path (lastSegment path) where
  plain := ⟨fun h => not_isSeparator_of_mem_lastSegment h (isSeparator_iff.mpr (.inl rfl)),
    fun h => not_isSeparator_of_mem_lastSegment h (isSeparator_iff.mpr (.inr rfl))⟩
  split := by simpa only [isSeparator_iff] using split_lastSegment path

theorem EndsIn.not_isSeparator (h : EndsIn path name) : ∀ c ∈ name.toList, ¬isSeparator c := by
  intro c hmem hc
  rcases isSeparator_iff.mp hc with rfl | rfl
  · exact h.plain.1 hmem
  · exact h.plain.2 hmem

theorem EndsIn.eq_lastSegment (h : EndsIn path name) : name = lastSegment path := by
  have hname : lastSegment name = name := lastSegment_of_forall_not_isSeparator h.not_isSeparator
  rcases h.split with rfl | ⟨front, c, hc, rfl⟩
  · exact hname.symm
  · rw [lastSegment_push_append (isSeparator_iff.mpr hc), hname]

theorem endsIn_iff : EndsIn path name ↔ name = lastSegment path := by
  constructor
  · exact EndsIn.eq_lastSegment
  · rintro rfl
    exact endsIn_lastSegment path

/-- There is an empty segment only at the end of the empty path and behind a separator. -/
theorem lastSegment_eq_empty_iff : lastSegment path = "" ↔
    path = "" ∨ ∃ (front : String) (c : Char), (c = '/' ∨ c = '\\') ∧ path = front.push c := by
  rw [eq_comm, ← endsIn_iff]
  constructor
  · intro h
    simpa only [String.append_empty] using h.split
  · intro h
    exact ⟨⟨List.not_mem_nil, List.not_mem_nil⟩, by simpa only [String.append_empty] using h⟩

/-- The last segment of a path is the one text in which the path ends as a segment of its own. It is its
own last segment, nothing before a separator changes it, and it is empty just for the empty path and for
paths that end in a separator. -/
theorem ends_in_lastSegment_only (path : String) :
    (∀ name, EndsIn path name ↔ name = lastSegment path) ∧
    lastSegment (lastSegment path) = lastSegment path ∧
    (∀ front : String, lastSegment (front.push '/' ++ path) = lastSegment path ∧
      lastSegment (front.push '\\' ++ path) = lastSegment path) ∧
    (lastSegment path = "" ↔
      path = "" ∨ ∃ (front : String) (c : Char), (c = '/' ∨ c = '\\') ∧ path = front.push c) := by
  refine ⟨fun name => endsIn_iff, lastSegment_lastSegment path, fun front => ⟨?_, ?_⟩,
    lastSegment_eq_empty_iff⟩
  · exact lastSegment_push_append (isSeparator_iff.mpr (.inl rfl)) front path
  · exact lastSegment_push_append (isSeparator_iff.mpr (.inr rfl)) front path

/-- Both separators, next to each other and mixed, and letters beyond ASCII. -/
example : lastSegment "C:\\été//bin/\\naïve.exe" = "naïve.exe" := by
  decide

end Daybook.Path
