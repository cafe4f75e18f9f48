import Daybook.Activity.Duration
import Daybook.Proofs.Text.Digits
import Mathlib.Algebra.GroupWithZero.Nat
import Mathlib.Data.List.Basic

/-! # What a written duration says

A duration is written in days, hours, minutes and seconds. Such a text says one number of seconds and no
other one, and for every number of seconds there is one such text. -/

namespace Daybook.Duration

/-! ## Units -/

/-- The units in which durations are written. -/
inductive Measure
  | days
  | hours
  | minutes
  | seconds
deriving DecidableEq

namespace Measure

def letter : Measure → Char
  | days => 'd'
  | hours => 'h'
  | minutes => 'm'
  | seconds => 's'

/-- The seconds in one of the unit. -/
def length : Measure → Nat
  | days => 86400
  | hours => 3600
  | minutes => 60
  | seconds => 1

/-- So many of the unit are one of the next larger unit. There is none beyond days. -/
def limit? : Measure → Option Nat
  | days => none
  | hours => some 24
  | minutes => some 60
  | seconds => some 60

variable {u v : Measure}

theorem eq_of_letter_eq (h : u.letter = v.letter) : u = v := by
  revert h
  cases u <;> cases v <;> decide

theorem eq_of_length_eq (h : u.length = v.length) : u = v := by
  revert h
  cases u <;> cases v <;> decide

theorem letter_ne_space (u : Measure) : u.letter ≠ ' ' := by
  cases u <;> decide

theorem length_pos (u : Measure) : 0 < u.length := by
  cases u <;> decide

/-- Where there is a larger unit there is a limit, and as many as that are no more than one of the larger
unit. -/
theorem exists_limit (h : u.length < v.length) :
    ∃ limit ∈ u.limit?, limit * u.length ≤ v.length := by
  revert h
  cases u <;> cases v <;> decide

end Measure

/-! ## Numbers of units -/

/-- The seconds in numbers of units. -/
def total (parts : List (Nat × Measure)) : Nat :=
  (parts.map fun part => part.1 * part.2.length).sum

/-- The parts of a duration as it is to be written. -/
structure Proper (parts : List (Nat × Measure)) : Prop where
  /-- Larger units come first, so that none comes twice. -/
  ordered : parts.Pairwise fun p q => q.2.length < p.2.length
  pos : ∀ part ∈ parts, 0 < part.1
  lt_limit : ∀ part ∈ parts, ∀ limit ∈ part.2.limit?, part.1 < limit

variable {parts parts' : List (Nat × Measure)} {part : Nat × Measure} {u : Measure}

@[simp]
theorem total_nil : total [] = 0 :=
  rfl

@[simp]
theorem total_cons (part : Nat × Measure) (parts : List (Nat × Measure)) :
    total (part :: parts) = part.1 * part.2.length + total parts := by
  rw [total, List.map_cons, List.sum_cons, total]

theorem total_filter_ne_zero (parts : List (Nat × Measure)) :
    total (parts.filter (·.1 ≠ 0)) = total parts := by
  induction parts with
  | nil => rfl
  | cons part parts ih =>
    by_cases h : part.1 = 0
    · rw [List.filter_cons_of_neg (by simpa using h), ih, total_cons, h, Nat.zero_mul, Nat.zero_add]
    · rw [List.filter_cons_of_pos (by simpa using h), total_cons, total_cons, ih]

namespace Proper

theorem tail (h : Proper (part :: parts)) : Proper parts where
  ordered := h.ordered.of_cons
  pos p hp := h.pos p (List.mem_cons_of_mem _ hp)
  lt_limit p hp := h.lt_limit p (List.mem_cons_of_mem _ hp)

/-- What is written in smaller units is less than one of a unit. -/
theorem total_lt (h : Proper parts) (hsmaller : ∀ part ∈ parts, part.2.length < u.length) :
    total parts < u.length := by
  induction parts generalizing u with
  | nil => exact u.length_pos
  | cons part parts ih =>
    have hrest : total parts < part.2.length := ih h.tail (List.pairwise_cons.mp h.ordered).1
    obtain ⟨limit, hlimit, hle⟩ :=
      Measure.exists_limit (hsmaller part List.mem_cons_self)
    have hlt : part.1 + 1 ≤ limit := h.lt_limit part List.mem_cons_self limit hlimit
    calc total (part :: parts)
      _ < part.1 * part.2.length + part.2.length := by
        rw [total_cons]
        exact Nat.add_lt_add_left hrest _
      _ = (part.1 + 1) * part.2.length := (Nat.succ_mul _ _).symm
      _ ≤ limit * part.2.length := Nat.mul_le_mul_right _ hlt
      _ ≤ u.length := hle

/-- The rest of a duration is less than one of its first unit. -/
theorem total_tail_lt (h : Proper (part :: parts)) : total parts < part.2.length :=
  h.tail.total_lt (List.pairwise_cons.mp h.ordered).1

theorem length_le_total (h : Proper (part :: parts)) : part.2.length ≤ total (part :: parts) := by
  rw [total_cons]
  exact Nat.le_add_right_of_le (Nat.le_mul_of_pos_left _ (h.pos part List.mem_cons_self))

theorem total_pos (h : Proper parts) (hne : parts ≠ []) : 0 < total parts := by
  obtain ⟨part, rest, rfl⟩ := List.exists_cons_of_ne_nil hne
  exact Nat.lt_of_lt_of_le part.2.length_pos h.length_le_total

theorem eq_nil_of_total_eq_zero (h : Proper parts) (hzero : total parts = 0) : parts = [] := by
  by_contra hne
  exact (h.total_pos hne).ne' hzero

/-- The first number and the rest are the quotient and the remainder by the first unit. -/
theorem div_mod_length (h : Proper (part :: parts)) :
    total (part :: parts) / part.2.length = part.1 ∧
      total (part :: parts) % part.2.length = total parts :=
  (Nat.div_mod_unique part.2.length_pos).mpr
    ⟨by rw [total_cons, Nat.add_comm, Nat.mul_comm], h.total_tail_lt⟩

theorem length_le_of_total_eq {part' : Nat × Measure} (h : Proper (part :: parts))
    (h' : Proper (part' :: parts')) (heq : total (part :: parts) = total (part' :: parts')) :
    part.2.length ≤ part'.2.length := by
  refine Nat.not_lt.mp fun hlt => ?_
  have hfirst : ∀ p ∈ part' :: parts', p.2.length < part.2.length := by
    refine List.forall_mem_cons.mpr ⟨hlt, fun p hp => ?_⟩
    exact ((List.pairwise_cons.mp h'.ordered).1 p hp).trans hlt
  have hless := h'.total_lt hfirst
  have hmore := h.length_le_total
  omega

/-- No seconds are written in two ways. -/
theorem unique (h : Proper parts) (h' : Proper parts') (heq : total parts = total parts') :
    parts = parts' := by
  induction parts generalizing parts' with
  | nil => exact (h'.eq_nil_of_total_eq_zero heq.symm).symm
  | cons part parts ih =>
    cases parts' with
    | nil => exact h.eq_nil_of_total_eq_zero heq
    | cons part' parts' =>
      -- One of a larger first unit would be more than all that the other duration says.
      have hlength : part.2.length = part'.2.length :=
        Nat.le_antisymm (h.length_le_of_total_eq h' heq) (h'.length_le_of_total_eq h heq.symm)
      obtain ⟨hnumber, hrest⟩ := h.div_mod_length
      obtain ⟨hnumber', hrest'⟩ := h'.div_mod_length
      rw [heq, hlength] at hnumber hrest
      have hpart : part = part' :=
        Prod.ext (hnumber.symm.trans hnumber') (Measure.eq_of_length_eq hlength)
      rw [hpart, ih h.tail h'.tail (hrest.symm.trans hrest')]

end Proper

/-! ## Texts -/

def partText (part : Nat × Measure) : List Char :=
  Text.digitsOf part.1 ++ [part.2.letter]

/-- The parts with a space between any two. -/
def joined (parts : List (Nat × Measure)) : List Char :=
  List.intercalate [' '] (parts.map partText)

/-- The text says a number of seconds, as a duration is to be written. -/
inductive Denotes : List Char → Int → Prop
  | zero : Denotes ['0', 's'] 0
  | positive {parts : List (Nat × Measure)} (hne : parts ≠ []) (h : Proper parts) :
      Denotes (joined parts) (total parts)
  | negative {parts : List (Nat × Measure)} (hne : parts ≠ []) (h : Proper parts) :
      Denotes ('-' :: joined parts) (-(total parts : Int))

/-! ## Reading -/

theorem partText_injective : Function.Injective partText := by
  intro p q h
  obtain ⟨hdigits, hletter⟩ := List.append_inj' h rfl
  exact Prod.ext (Text.digitsOf_injective hdigits)
    (Measure.eq_of_letter_eq (List.singleton_inj.mp hletter))

theorem space_notMem_partText (part : Nat × Measure) : ' ' ∉ partText part := by
  have hdigits : ' ' ∉ Text.digitsOf part.1 := (Text.digits_digitsOf part.1).notMem rfl
  have hletter : ' ' ∉ [part.2.letter] := by simpa [eq_comm] using part.2.letter_ne_space
  exact List.not_mem_append hdigits hletter

theorem splitOn_joined (hne : parts ≠ []) : (joined parts).splitOn ' ' = parts.map partText := by
  refine List.splitOn_intercalate ' ' (List.forall_mem_map.mpr fun part _ => ?_) (by simpa using hne)
  exact space_notMem_partText part

/-- The parts can be read off the text. -/
theorem eq_of_joined_eq (hne : parts ≠ []) (hne' : parts' ≠ []) (h : joined parts = joined parts') :
    parts = parts' := by
  have hsplit := congrArg (List.splitOn ' ') h
  rw [splitOn_joined hne, splitOn_joined hne'] at hsplit
  exact partText_injective.list_map hsplit

theorem exists_joined_cons (part : Nat × Measure) (parts : List (Nat × Measure)) :
    ∃ rest, joined (part :: parts) = partText part ++ rest := by
  cases parts with
  | nil => exact ⟨[], by simp [joined]⟩
  | cons next parts => exact ⟨' ' :: joined (next :: parts), by simp [joined]⟩

/-- A text of parts starts with a digit. -/
theorem joined_ne_minus (hne : parts ≠ []) (text : List Char) : joined parts ≠ '-' :: text := by
  obtain ⟨part, rest, rfl⟩ := List.exists_cons_of_ne_nil hne
  obtain ⟨more, hjoined⟩ := exists_joined_cons part rest
  obtain ⟨c, digits, hdigits⟩ := List.exists_cons_of_ne_nil (Text.digitsOf_ne_nil part.1)
  have hc : c.isDigit := Text.isDigit_of_mem_digitsOf (hdigits ▸ List.mem_cons_self)
  intro h
  rw [hjoined, partText, hdigits] at h
  obtain ⟨rfl, -⟩ := List.cons.inj h
  contradiction

variable {written written' : List Char} {n m : Int}

/-- Every text that says something is made of parts after at most one sign. -/
theorem Denotes.exists_parts (h : Denotes written n) : ∃ parts, parts ≠ [] ∧
    (written = joined parts ∧ n = total parts ∨
      written = '-' :: joined parts ∧ n = -(total parts : Int)) := by
  cases h with
  | zero => exact ⟨[(0, .seconds)], List.cons_ne_nil _ _, .inl ⟨rfl, rfl⟩⟩
  | @positive parts hne _ => exact ⟨parts, hne, .inl ⟨rfl, rfl⟩⟩
  | @negative parts hne _ => exact ⟨parts, hne, .inr ⟨rfl, rfl⟩⟩

/-- No text says two numbers of seconds. -/
theorem Denotes.unique (h : Denotes written n) (h' : Denotes written m) : n = m := by
  obtain ⟨parts, hne, hwritten⟩ := h.exists_parts
  obtain ⟨parts', hne', hwritten'⟩ := h'.exists_parts
  rcases hwritten with ⟨rfl, rfl⟩ | ⟨rfl, rfl⟩ <;> rcases hwritten' with ⟨heq, rfl⟩ | ⟨heq, rfl⟩
  · rw [eq_of_joined_eq hne hne' heq]
  · exact absurd heq (joined_ne_minus hne _)
  · exact absurd heq.symm (joined_ne_minus hne' _)
  · rw [eq_of_joined_eq hne hne' (List.cons_inj_right _ |>.mp heq)]

/-- No two texts say the same number of seconds. -/
theorem Denotes.text_unique (h : Denotes written n) (h' : Denotes written' m) (heq : n = m) :
    written = written' := by
  cases h with
  | zero =>
    cases h' with
    | zero => rfl
    | positive hne' h' | negative hne' h' =>
      have := h'.total_pos hne'
      omega
  | positive hne h =>
    have hpos := h.total_pos hne
    cases h' with
    | positive hne' h' => rw [h.unique h' (Int.ofNat.inj heq)]
    | zero | negative hne' h' => omega
  | negative hne h =>
    have hpos := h.total_pos hne
    cases h' with
    | negative hne' h' => rw [h.unique h' (Int.ofNat.inj (Int.neg_inj.mp heq))]
    | zero | positive hne' h' => omega

/-! ## Writing -/

/-- A number of seconds in all units, whether there are any of the unit or not. -/
def amounts (seconds : Nat) : List (Nat × Measure) :=
  [(seconds / 86400, .days), (seconds % 86400 / 3600, .hours), (seconds % 3600 / 60, .minutes),
    (seconds % 60, .seconds)]

/-- The amounts that are written. -/
def partsOf (seconds : Nat) : List (Nat × Measure) :=
  (amounts seconds).filter (·.1 ≠ 0)

theorem components_eq (seconds : Nat) :
    components seconds = (amounts seconds).map fun part => (part.1, part.2.letter) :=
  rfl

theorem secondsText_eq (seconds : Nat) : secondsText seconds = joined (partsOf seconds) := by
  rw [secondsText, components_eq, List.filter_map, List.map_map]
  rfl

theorem total_amounts (seconds : Nat) : total (amounts seconds) = seconds := by
  simp only [amounts, total_cons, total_nil, Measure.length]
  omega

theorem proper_partsOf (seconds : Nat) : Proper (partsOf seconds) where
  ordered := by
    have hordered : (amounts seconds).Pairwise fun p q => q.2.length < p.2.length := by
      simp [amounts, Measure.length]
    exact hordered.filter _
  pos part hpart := Nat.pos_of_ne_zero (by simpa using (List.mem_filter.mp hpart).2)
  lt_limit := by
    have hlimit : ∀ part ∈ amounts seconds, ∀ limit ∈ part.2.limit?, part.1 < limit := by
      simp [amounts, Measure.limit?]
      omega
    exact fun part hpart => hlimit part (List.mem_filter.mp hpart).1

theorem total_partsOf (seconds : Nat) : total (partsOf seconds) = seconds := by
  rw [partsOf, total_filter_ne_zero, total_amounts]

theorem tdiv_thousand (ms : Int) :
    ms.tdiv 1000 = if ms < 0 then -((ms.natAbs / 1000 : Nat) : Int) else (ms.natAbs / 1000 : Nat) := by
  have hnat : ∀ n : Nat, (n : Int).tdiv 1000 = (n / 1000 : Nat) := fun n =>
    (Int.ofNat_tdiv n 1000).symm
  split
  · next hneg =>
    obtain ⟨n, rfl⟩ : ∃ n : Nat, ms = -n := ⟨ms.natAbs, by omega⟩
    rw [Int.neg_tdiv, hnat, Int.natAbs_neg, Int.natAbs_natCast]
  · next hneg =>
    obtain ⟨n, rfl⟩ := Int.eq_ofNat_of_zero_le (Int.not_lt.mp hneg)
    rw [hnat, Int.natAbs_natCast]

/-- A duration of less than a second either way is `0s`. Others are written in parts that are as many
seconds as are in them in full, after a sign if they are negative. -/
theorem text_cases (ms : Int) :
    (ms.natAbs / 1000 = 0 ∧ text ms = "0s") ∨
    ∃ parts, parts ≠ [] ∧ Proper parts ∧ total parts = ms.natAbs / 1000 ∧
      (text ms).toList = if ms < 0 then '-' :: joined parts else joined parts := by
  by_cases hzero : ms.natAbs / 1000 = 0
  · exact .inl ⟨hzero, by simp [text, hzero]⟩
  · right
    have htotal := total_partsOf (ms.natAbs / 1000)
    have hne : partsOf (ms.natAbs / 1000) ≠ [] := by
      intro hnil
      rw [hnil] at htotal
      exact hzero htotal.symm
    refine ⟨_, hne, proper_partsOf _, htotal, ?_⟩
    rw [text, String.toList_ofList, if_neg hzero, secondsText_eq]

/-- The text of a duration says the seconds that are in it in full. -/
theorem denotes_text (ms : Int) : Denotes (text ms).toList (ms.tdiv 1000) := by
  rw [tdiv_thousand]
  rcases text_cases ms with ⟨hzero, htext⟩ | ⟨parts, hne, hproper, htotal, htext⟩
  · rw [htext, hzero]
    simpa using Denotes.zero
  · rw [htext, ← htotal]
    split
    · exact .negative hne hproper
    · exact .positive hne hproper

/-- The text of a duration says its seconds, rounded toward zero, and says nothing else, and no other
text says them. It is `0s` if there are none. Otherwise it has a sign if the duration is negative, and
then numbers of units, larger units first, none of them zero or as much as one of a larger unit, which are
so many seconds in all. So durations that have the same text are those with the same whole seconds. -/
theorem text_denotes_whole_seconds (ms : Int) :
    (∀ t : String, text ms = t ↔ Denotes t.toList (ms.tdiv 1000)) ∧
    (∀ seconds, Denotes (text ms).toList seconds ↔ seconds = ms.tdiv 1000) ∧
    ((ms.tdiv 1000 = 0 ∧ text ms = "0s") ∨
      ∃ parts, parts ≠ [] ∧ Proper parts ∧ total parts = ms.natAbs / 1000 ∧
        (text ms).toList = if ms < 0 then '-' :: joined parts else joined parts) ∧
    ∀ other, text ms = text other ↔ ms.tdiv 1000 = other.tdiv 1000 := by
  have hdenotes := denotes_text ms
  have hsame : ∀ t : String, Denotes t.toList (ms.tdiv 1000) → text ms = t := fun t ht =>
    String.toList_injective (hdenotes.text_unique ht rfl)
  refine ⟨fun t => ⟨fun h => h ▸ hdenotes, hsame t⟩, fun seconds => ⟨fun h => h.unique hdenotes, ?_⟩,
    ?_, fun other => ⟨fun h => ?_, fun h => ?_⟩⟩
  · rintro rfl
    exact hdenotes
  · refine (text_cases ms).imp_left fun h => ⟨?_, h.2⟩
    simp [tdiv_thousand, h.1]
  · exact hdenotes.unique (h ▸ denotes_text other)
  · exact hsame _ (h ▸ denotes_text other)

example : text (-9223372036854775808) = "-106751991167d 7h 12m 55s" := by
  decide +kernel

end Daybook.Duration
