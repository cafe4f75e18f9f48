import Daybook.Text.Blank
import Mathlib.Data.List.TakeWhile

/-! # White space around a text

Trimming takes the white space at both ends away, all of it, and nothing else. -/

namespace Daybook.Text

variable {blank text inner rest : List Char} {c : Char}

/-- There is nothing but white space. -/
def IsBlank (text : List Char) : Prop :=
  ∀ c ∈ text, isBlank c

theorem IsBlank.notMem (h : IsBlank text) (hc : isBlank c = false) : c ∉ text := by
  intro hmem
  have hblank := h c hmem
  rw [hc] at hblank
  contradiction

theorem not_isBlank_of_isDigit (h : c.isDigit) : ¬isBlank c := by
  rw [Char.isDigit, Bool.and_eq_true, decide_eq_true_eq, decide_eq_true_eq] at h
  have hge : 48 ≤ c.toNat := h.1
  have hle : c.toNat ≤ 57 := h.2
  simp [isBlank]
  omega

/-- White space in front of a text that starts with none is all taken away. -/
theorem trimStart_append (hblank : IsBlank blank) (hrest : ∀ c ∈ rest.head?, ¬isBlank c) :
    trimStart (blank ++ rest) = rest := by
  rw [trimStart, List.dropWhile_append_of_pos hblank]
  cases rest with
  | nil => rfl
  | cons c rest => rw [List.dropWhile_cons_of_neg (hrest c rfl)]

theorem exists_blank_trimStart (text : List Char) :
    ∃ blank, IsBlank blank ∧ text = blank ++ trimStart text :=
  ⟨text.takeWhile isBlank, fun _ hc => List.mem_takeWhile_imp hc,
    List.takeWhile_append_dropWhile.symm⟩

theorem trimEnd_eq_reverse (text : List Char) : trimEnd text = (trimStart text.reverse).reverse :=
  rfl

/-- The second text is the first one without the white space at its ends. -/
structure Trims (text inner : List Char) : Prop where
  split : ∃ front back, IsBlank front ∧ IsBlank back ∧ text = front ++ (inner ++ back)
  head : ∀ c ∈ inner.head?, ¬isBlank c
  last : ∀ c ∈ inner.getLast?, ¬isBlank c

theorem trims_trim (text : List Char) : Trims text (trim text) := by
  obtain ⟨front, hfront, htext⟩ := exists_blank_trimStart text
  obtain ⟨back, hback, hrest⟩ := exists_blank_trimStart (trimStart text).reverse
  have hsplit : trimStart text = trim text ++ back.reverse := by
    rw [trim, trimEnd_eq_reverse, ← List.reverse_append, ← hrest, List.reverse_reverse]
  refine ⟨⟨front, back.reverse, hfront, fun c hc => hback c (List.mem_reverse.mp hc), ?_⟩, ?_, ?_⟩
  · rw [← hsplit, ← htext]
  · intro c hc
    have hhead : c ∈ (trimStart text).head? := by
      rw [hsplit, List.head?_append, Option.mem_def.mp hc, Option.some_or]
      rfl
    exact not_isBlank_head_trimStart hhead
  · intro c hc
    rw [trim, trimEnd_eq_reverse, List.getLast?_reverse] at hc
    exact not_isBlank_head_trimStart hc

theorem trim_eq_of_trims (h : Trims text inner) : trim text = inner := by
  obtain ⟨⟨front, back, hfront, hback, rfl⟩, hhead, hlast⟩ := h
  by_cases hinner : inner = []
  · -- With nothing inside, the text is white space all through.
    subst hinner
    have hall : trimStart (front ++ ([] ++ back)) = [] :=
      List.dropWhile_eq_nil_iff.mpr (List.forall_mem_append.mpr ⟨hfront, hback⟩)
    rw [trim, hall]
    rfl
  · have hstart : ∀ c ∈ (inner ++ back).head?, ¬isBlank c := by
      obtain ⟨c, tail, rfl⟩ := List.exists_cons_of_ne_nil hinner
      exact hhead
    have hend : ∀ c ∈ inner.reverse.head?, ¬isBlank c := by
      rwa [List.head?_reverse]
    have hback' : IsBlank back.reverse := fun c hc => hback c (List.mem_reverse.mp hc)
    rw [trim, trimStart_append hfront hstart, trimEnd_eq_reverse, List.reverse_append,
      trimStart_append hback' hend, List.reverse_reverse]

theorem trim_eq_iff : trim text = inner ↔ Trims text inner :=
  ⟨fun h => h ▸ trims_trim text, trim_eq_of_trims⟩

/-- A text without any white space is left as it is. -/
theorem trim_eq_self (h : ∀ c ∈ text, ¬isBlank c) : trim text = text := by
  refine trim_eq_of_trims ⟨⟨[], [], List.forall_mem_nil _, List.forall_mem_nil _, by simp⟩, ?_, ?_⟩
  · exact fun c hc => h c (List.mem_of_mem_head? hc)
  · exact fun c hc => h c (List.mem_of_mem_getLast? hc)

end Daybook.Text
