import Daybook.Text.Digits
import Mathlib.Algebra.Group.Nat.Defs
import Mathlib.Data.List.Induction
import Mathlib.Data.List.TakeWhile

/-! # Rows of digits

What the readers of digits take off the front of a text is a row of digits and the number that it spells,
and numbers that are written can be read back. -/

namespace Daybook.Text

variable {digits front text rest : List Char} {n limit count width : Nat}

/-- The text is a row of digits, one at least, and they spell the number. -/
structure Digits (text : List Char) (n : Nat) : Prop where
  ne_nil : text ≠ []
  isDigit : ∀ c ∈ text, c.isDigit
  value : valueOf text = n

/-- The text is a row of so many digits, and they spell the number. -/
structure FixedDigits (count : Nat) (text : List Char) (n : Nat) : Prop extends Digits text n where
  length_eq : text.length = count

theorem Digits.notMem {c : Char} (h : Digits text n) (hc : c.isDigit = false) : c ∉ text := by
  intro hmem
  have hdigit := h.isDigit c hmem
  rw [hc] at hdigit
  contradiction

/-! ## The number that digits spell -/

theorem valueOf_append (front rest : List Char) :
    valueOf (front ++ rest) = valueOf front * 10 ^ rest.length + valueOf rest := by
  rw [valueOf, Nat.ofDigitChars_append, Nat.ofDigitChars_eq_ofDigitChars_zero, Nat.mul_comm]
  rfl

theorem valueOf_zeros (count : Nat) : valueOf (List.replicate count '0') = 0 :=
  Nat.ofDigitChars_replicate_zero

/-- Digits spell a number that has no more of them. -/
theorem valueOf_lt (h : ∀ c ∈ digits, c.isDigit) : valueOf digits < 10 ^ digits.length := by
  induction digits using List.reverseRecOn with
  | nil => decide
  | append_singleton front c ih =>
    obtain ⟨hfront, hc⟩ := List.forall_mem_append.mp h
    have hvalue : valueOf [c] < 10 := by
      have hdigit := hc c (List.mem_singleton_self c)
      rw [Char.isDigit, Bool.and_eq_true, decide_eq_true_eq, decide_eq_true_eq] at hdigit
      have hle : c.toNat ≤ 57 := hdigit.2
      have hzero : '0'.toNat = 48 := rfl
      simp only [valueOf, Nat.ofDigitChars_cons, Nat.ofDigitChars_nil, hzero]
      omega
    have hlt := ih hfront
    rw [valueOf_append, List.length_append, List.length_singleton, Nat.pow_succ]
    omega

theorem Digits.lt (h : Digits text n) : n < 10 ^ text.length :=
  h.value ▸ valueOf_lt h.isDigit

/-- The first digits spell the number that is left when the others are dropped. -/
theorem valueOf_take (h : ∀ c ∈ digits, c.isDigit) (count : Nat) :
    valueOf (digits.take count) = valueOf digits / 10 ^ (digits.length - count) := by
  have hrest : ∀ c ∈ digits.drop count, c.isDigit := fun c hc => h c (List.mem_of_mem_drop hc)
  have hlt := valueOf_lt hrest
  have hvalue := valueOf_append (digits.take count) (digits.drop count)
  rw [List.take_append_drop] at hvalue
  rw [List.length_drop] at hlt hvalue
  rw [hvalue, Nat.mul_comm, Nat.mul_add_div (Nat.pow_pos (by decide)), Nat.div_eq_of_lt hlt,
    Nat.add_zero]

/-! ## Readers -/

/-- A text starts with its first character and no other one. -/
theorem forall_head?_cons {p : Char → Prop} {c : Char} (h : p c) (rest : List Char) :
    ∀ d ∈ (c :: rest).head?, p d := by
  intro d hd
  rwa [← Option.some.inj hd]

/-- Where a front ends with the first element that lacks a property, the list fixes both its parts. -/
theorem append_inj_of_head {α : Type} {p : α → Bool} {front front' rest rest' : List α}
    (hf : ∀ a ∈ front, p a) (hf' : ∀ a ∈ front', p a) (hr : ∀ a ∈ rest.head?, ¬p a)
    (hr' : ∀ a ∈ rest'.head?, ¬p a) (h : front ++ rest = front' ++ rest') :
    front = front' ∧ rest = rest' := by
  have htake := congrArg (List.takeWhile p) h
  have hdrop := congrArg (List.dropWhile p) h
  rw [takeWhile_append_of_head hf hr, takeWhile_append_of_head hf' hr'] at htake
  rw [dropWhile_append_of_head hf hr, dropWhile_append_of_head hf' hr'] at hdrop
  exact ⟨htake, hdrop⟩

theorem expect?_eq_some_iff {c : Char} : expect? c text = some rest ↔ text = c :: rest := by
  cases text with
  | nil => simp [expect?]
  | cons d text => simp [expect?]

@[simp]
theorem expect?_cons (c : Char) (rest : List Char) : expect? c (c :: rest) = some rest :=
  expect?_eq_some_iff.mpr rfl

theorem takeDigits?_eq_some_iff (hcount : 0 < count) :
    takeDigits? count text = some (n, rest) ↔
      ∃ digits, FixedDigits count digits n ∧ text = digits ++ rest := by
  simp only [takeDigits?]
  constructor
  · intro h
    split at h
    · next htaken =>
      obtain ⟨hlength, hall⟩ := htaken
      have hne : text.take count ≠ [] := List.ne_nil_of_length_pos (by omega)
      obtain ⟨rfl, rfl⟩ := Prod.mk.inj (Option.some.inj h)
      exact ⟨text.take count, ⟨⟨hne, List.all_eq_true.mp hall, rfl⟩, hlength⟩,
        (List.take_append_drop count text).symm⟩
    · contradiction
  · rintro ⟨digits, ⟨⟨-, hall, rfl⟩, rfl⟩, rfl⟩
    rw [List.take_left, List.drop_left, if_pos ⟨rfl, List.all_eq_true.mpr hall⟩]

theorem FixedDigits.takeDigits? (h : FixedDigits count digits n) (rest : List Char) :
    takeDigits? count (digits ++ rest) = some (n, rest) := by
  have hcount : 0 < count := h.length_eq ▸ List.length_pos_iff.mpr h.ne_nil
  exact (takeDigits?_eq_some_iff hcount).mpr ⟨digits, h, rfl⟩

theorem exists_of_takeDigitsUpTo? (h : takeDigitsUpTo? limit text = some (n, rest)) :
    ∃ digits, Digits digits n ∧ digits.length ≤ limit ∧ text = digits ++ rest := by
  simp only [takeDigitsUpTo?] at h
  split at h
  · contradiction
  · next hne =>
    obtain ⟨rfl, rfl⟩ := Prod.mk.inj (Option.some.inj h)
    have hfront : (text.take limit).takeWhile Char.isDigit <+: text :=
      (List.takeWhile_prefix _).trans (List.take_prefix limit text)
    refine ⟨_, ⟨hne, fun c hc => List.mem_takeWhile_imp hc, rfl⟩, ?_,
      (List.prefix_iff_eq_append.mp hfront).symm⟩
    exact (List.takeWhile_prefix _).length_le.trans (List.length_take_le limit text)

/-- Digits are read up to the first character that is none, if there are not too many. -/
theorem takeDigitsUpTo?_append (hdigits : Digits digits n) (hlength : digits.length ≤ limit)
    (hrest : ∀ c ∈ rest.head?, ¬c.isDigit) :
    takeDigitsUpTo? limit (digits ++ rest) = some (n, rest) := by
  have hstop : ∀ c ∈ (rest.take (limit - digits.length)).head?, ¬c.isDigit := by
    intro c hc
    rw [List.head?_take] at hc
    split at hc
    · contradiction
    · exact hrest c hc
  have htaken : ((digits ++ rest).take limit).takeWhile Char.isDigit = digits := by
    rw [List.take_append, List.take_of_length_le hlength]
    exact takeWhile_append_of_head hdigits.isDigit hstop
  simp only [takeDigitsUpTo?, htaken, if_neg hdigits.ne_nil, hdigits.value, List.drop_left]

/-- What is read as digits is a row of them, and the number that they spell. -/
theorem exists_of_takeAllDigits? (h : takeAllDigits? text = some (n, rest)) :
    ∃ digits, Digits digits n ∧ text = digits ++ rest := by
  simp only [takeAllDigits?] at h
  split at h
  · contradiction
  · next hne =>
    obtain ⟨rfl, rfl⟩ := Prod.mk.inj (Option.some.inj h)
    exact ⟨_, ⟨hne, fun c hc => List.mem_takeWhile_imp hc, rfl⟩,
      List.takeWhile_append_dropWhile.symm⟩

theorem Digits.takeAllDigits? (h : Digits digits n) (hrest : ∀ c ∈ rest.head?, ¬c.isDigit) :
    takeAllDigits? (digits ++ rest) = some (n, rest) := by
  rw [takeAllDigits?_append h.ne_nil h.isDigit hrest, h.value]

/-! ## Written numbers -/

theorem digits_digitsOf (n : Nat) : Digits (digitsOf n) n :=
  ⟨digitsOf_ne_nil n, fun _ hc => isDigit_of_mem_digitsOf hc, valueOf_digitsOf n⟩

theorem digitsOf_injective : Function.Injective digitsOf := by
  intro n m h
  rw [← valueOf_digitsOf n, h, valueOf_digitsOf]

theorem head?_digitsOf_ne_zero (h : 0 < n) : (digitsOf n).head? ≠ some '0' := by
  induction n using Nat.strongRecOn with
  | ind n ih =>
    by_cases hn : n < 10
    · rw [digitsOf, Nat.toDigits_of_lt_base hn]
      simp only [List.head?_cons, ne_eq, Option.some.injEq, Nat.digitChar_eq_zero]
      omega
    · have hne : digitsOf (n / 10) ≠ [] := digitsOf_ne_nil _
      obtain ⟨c, digits, hd⟩ := List.exists_cons_of_ne_nil hne
      have hhead := ih (n / 10) (by omega) (by omega)
      rw [hd] at hhead
      rw [digitsOf, Nat.toDigits_of_base_le (by decide) (by omega), ← digitsOf, hd]
      exact hhead

theorem digits_zeroPadded (width n : Nat) : Digits (zeroPadded width n) n where
  ne_nil := List.append_ne_nil_of_right_ne_nil _ (digitsOf_ne_nil n)
  isDigit := by
    refine List.forall_mem_append.mpr ⟨fun c hc => ?_, fun c hc => isDigit_of_mem_digitsOf hc⟩
    rw [List.eq_of_mem_replicate hc]
    decide
  value := by
    rw [zeroPadded, valueOf_append, valueOf_zeros, Nat.zero_mul, Nat.zero_add, valueOf_digitsOf]

theorem length_digitsOf_le (hwidth : 0 < width) (h : n < 10 ^ width) :
    (digitsOf n).length ≤ width :=
  (Nat.length_toDigits_le_iff (by decide) hwidth).mpr h

theorem fixedDigits_zeroPadded (hwidth : 0 < width) (h : n < 10 ^ width) :
    FixedDigits width (zeroPadded width n) n := by
  refine ⟨digits_zeroPadded width n, ?_⟩
  have hle := length_digitsOf_le hwidth h
  rw [zeroPadded, List.length_append, List.length_replicate]
  omega

end Daybook.Text
