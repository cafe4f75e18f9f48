import Daybook.Json.Reading
import Daybook.Json.Value
import Daybook.Proofs.Text.Digits
import Mathlib.Data.List.TakeWhile
import Mathlib.Tactic.SplitIfs

/-! # Numbers and strings in JSON texts

The grammar of numbers and of strings. Their readers take what the grammar allows and nothing else, up
to the first character that does not belong to it, and whatever is written is in the grammar. -/

namespace Daybook

namespace Json

/-! ## Numbers -/

namespace Numeral

open Text

/-- The whole part of a number: a zero, or digits of which the first is none. -/
inductive IsWhole : List Char → Prop
  | zero : IsWhole ['0']
  | digits {digits : List Char} (hne : digits ≠ []) (hdigits : ∀ c ∈ digits, c.isDigit)
      (hzero : digits.head? ≠ some '0') : IsWhole digits

/-- The text puts digits after a point, if there are any. -/
inductive SpellsFraction : List Char → List Char → Prop
  | none : SpellsFraction [] []
  | point {digits : List Char} (hne : digits ≠ []) (hdigits : ∀ c ∈ digits, c.isDigit) :
      SpellsFraction ('.' :: digits) digits

/-- The text puts a number after a mark, if there is one. -/
inductive SpellsExponent : List Char → Option Int → Prop
  | none : SpellsExponent [] none
  | positive {mark : Char} {sign digits : List Char} (hmark : mark = 'e' ∨ mark = 'E')
      (hsign : sign = [] ∨ sign = ['+']) (hne : digits ≠ []) (hdigits : ∀ c ∈ digits, c.isDigit) :
      SpellsExponent (mark :: (sign ++ digits)) (some (valueOf digits))
  | negative {mark : Char} {digits : List Char} (hmark : mark = 'e' ∨ mark = 'E')
      (hne : digits ≠ []) (hdigits : ∀ c ∈ digits, c.isDigit) :
      SpellsExponent (mark :: '-' :: digits) (some (-(valueOf digits : Int)))

/-- The text spells a number. -/
inductive Spells : List Char → Numeral → Prop
  | unsigned {whole fraction exponent digits : List Char} {power : Option Int}
      (hwhole : IsWhole whole) (hfraction : SpellsFraction fraction digits)
      (hexponent : SpellsExponent exponent power) :
      Spells (whole ++ (fraction ++ exponent)) ⟨false, whole, digits, power⟩
  | negative {whole fraction exponent digits : List Char} {power : Option Int}
      (hwhole : IsWhole whole) (hfraction : SpellsFraction fraction digits)
      (hexponent : SpellsExponent exponent power) :
      Spells ('-' :: (whole ++ (fraction ++ exponent))) ⟨true, whole, digits, power⟩

/-- The text does not go on with a number. -/
def Stops (rest : List Char) : Prop :=
  ∀ c ∈ rest.head?, ¬c.isDigit ∧ c ≠ '.' ∧ c ≠ 'e' ∧ c ≠ 'E'

section Read

variable {text rest whole fraction exponent digits : List Char} {power : Option Int}

theorem takeWhole?_append (hwhole : IsWhole whole) (h : ∀ c ∈ rest.head?, ¬c.isDigit) :
    takeWhole? (whole ++ rest) = some (whole, rest) := by
  cases hwhole with
  | zero =>
    cases rest with
    | nil => rfl
    | cons c rest => simp [takeWhole?, h c rfl]
  | digits hne hdigits hzero =>
    rw [takeWhole?.eq_def]
    split
    · next heq =>
      obtain ⟨c, digits, rfl⟩ := List.exists_cons_of_ne_nil hne
      obtain ⟨rfl, -⟩ := List.cons.inj heq
      exact absurd rfl hzero
    · rw [takeWhile_append_of_head hdigits h, dropWhile_append_of_head hdigits h]
      simp [hne]

theorem of_takeWhole? (h : takeWhole? text = some (whole, rest)) :
    IsWhole whole ∧ text = whole ++ rest := by
  rw [takeWhole?.eq_def] at h
  split at h
  · split at h
    · split at h
      · contradiction
      · obtain ⟨rfl, rfl⟩ := Prod.mk.inj (Option.some.inj h)
        exact ⟨.zero, rfl⟩
    · obtain ⟨rfl, rfl⟩ := Prod.mk.inj (Option.some.inj h)
      exact ⟨.zero, rfl⟩
  · next hzero =>
    simp only at h
    split at h
    · contradiction
    · next hne =>
      obtain ⟨rfl, rfl⟩ := Prod.mk.inj (Option.some.inj h)
      refine ⟨.digits hne (fun c hc => List.mem_takeWhile_imp hc) fun hhead => ?_,
        List.takeWhile_append_dropWhile.symm⟩
      rw [List.head?_takeWhile, Option.filter_eq_some_iff] at hhead
      obtain ⟨tail, rfl⟩ := List.head?_eq_some_iff.mp hhead.1
      exact hzero tail rfl

theorem takeFraction?_append (hfraction : SpellsFraction fraction digits)
    (h : ∀ c ∈ rest.head?, ¬c.isDigit ∧ c ≠ '.') :
    takeFraction? (fraction ++ rest) = some (digits, rest) := by
  cases hfraction with
  | none =>
    rw [List.nil_append, takeFraction?.eq_def]
    split
    · exact absurd rfl (h '.' rfl).2
    · rfl
  | point hne hdigits =>
    have hstop : ∀ c ∈ rest.head?, ¬c.isDigit := fun c hc => (h c hc).1
    rw [List.cons_append, takeFraction?, takeWhile_append_of_head hdigits hstop,
      dropWhile_append_of_head hdigits hstop]
    simp [hne]

theorem exists_of_takeFraction? (h : takeFraction? text = some (digits, rest)) :
    ∃ fraction, SpellsFraction fraction digits ∧ text = fraction ++ rest := by
  rw [takeFraction?.eq_def] at h
  split at h
  · simp only at h
    split at h
    · contradiction
    · next hne =>
      obtain ⟨rfl, rfl⟩ := Prod.mk.inj (Option.some.inj h)
      refine ⟨_, .point hne fun c hc => List.mem_takeWhile_imp hc, ?_⟩
      rw [List.cons_append, List.takeWhile_append_dropWhile]
  · obtain ⟨rfl, rfl⟩ := Prod.mk.inj (Option.some.inj h)
    exact ⟨[], .none, rfl⟩

theorem takeExponent?_append (hexponent : SpellsExponent exponent power) (h : Stops rest) :
    takeExponent? (exponent ++ rest) = some (power, rest) := by
  have hstop : ∀ c ∈ rest.head?, ¬c.isDigit := fun c hc => (h c hc).1
  cases hexponent with
  | none =>
    rw [List.nil_append, takeExponent?.eq_def]
    split
    · exact absurd rfl (h 'e' rfl).2.2.1
    · exact absurd rfl (h 'E' rfl).2.2.2
    · rfl
  | positive hmark hsign hne hdigits =>
    have hread := takeAllDigits?_append hne hdigits hstop
    obtain ⟨c, digits, rfl⟩ := List.exists_cons_of_ne_nil hne
    have hc : c.isDigit := hdigits c List.mem_cons_self
    have hminus : c ≠ '-' := by
      rintro rfl
      contradiction
    have hplus : c ≠ '+' := by
      rintro rfl
      contradiction
    rw [List.cons_append] at hread
    rcases hmark with rfl | rfl <;> rcases hsign with rfl | rfl <;>
      simp [takeExponent?, takeSign, hminus, hplus, hread]
  | negative hmark hne hdigits =>
    have hread := takeAllDigits?_append hne hdigits hstop
    rcases hmark with rfl | rfl <;> simp [takeExponent?, takeSign, hread]

theorem takeSign_cases (text : List Char) :
    (takeSign text).1 = true ∧ text = '-' :: (takeSign text).2 ∨
      (takeSign text).1 = false ∧
        ∃ sign, (sign = [] ∨ sign = ['+']) ∧ text = sign ++ (takeSign text).2 := by
  fun_cases takeSign text with
  | case1 rest => exact .inl ⟨rfl, rfl⟩
  | case2 rest => exact .inr ⟨rfl, ['+'], .inr rfl, rfl⟩
  | case3 => exact .inr ⟨rfl, [], .inl rfl, rfl⟩

theorem exists_of_takeMarked {mark : Char} (hmark : mark = 'e' ∨ mark = 'E')
    (h : (Text.takeAllDigits? (takeSign text).2).map (fun p =>
      (some (if (takeSign text).1 then -(p.1 : Int) else p.1), p.2)) = some (power, rest)) :
    ∃ exponent, SpellsExponent exponent power ∧ mark :: text = exponent ++ rest := by
  obtain ⟨⟨n, tail⟩, hdigits, heq⟩ := Option.map_eq_some_iff.mp h
  obtain ⟨rfl, rfl⟩ := Prod.mk.inj heq
  obtain ⟨digits, ⟨hne, hall, rfl⟩, htext⟩ := exists_of_takeAllDigits? hdigits
  rcases takeSign_cases text with ⟨hsign, hminus⟩ | ⟨hsign, sign, hplus, hrest⟩
  · rw [hsign, if_pos rfl]
    refine ⟨_, .negative hmark hne hall, ?_⟩
    rw [hminus, htext]
    rfl
  · rw [hsign, if_neg Bool.false_ne_true]
    refine ⟨_, .positive hmark hplus hne hall, ?_⟩
    rw [hrest, htext, List.cons_append, List.append_assoc]

theorem exists_of_takeExponent? (h : takeExponent? text = some (power, rest)) :
    ∃ exponent, SpellsExponent exponent power ∧ text = exponent ++ rest := by
  rw [takeExponent?.eq_def] at h
  split at h
  · exact exists_of_takeMarked (.inl rfl) h
  · exact exists_of_takeMarked (.inr rfl) h
  · obtain ⟨rfl, rfl⟩ := Prod.mk.inj (Option.some.inj h)
    exact ⟨[], .none, rfl⟩

/-- An exponent does not begin like a whole part or a fraction goes on. -/
theorem head?_exponent (hexponent : SpellsExponent exponent power) (h : Stops rest) :
    ∀ c ∈ (exponent ++ rest).head?, ¬c.isDigit ∧ c ≠ '.' := by
  intro c hc
  cases hexponent with
  | none => exact ⟨(h c hc).1, (h c hc).2.1⟩
  | positive hmark hsign hne hdigits =>
    obtain rfl := Option.some.inj hc
    rcases hmark with rfl | rfl <;> decide
  | negative hmark hne hdigits =>
    obtain rfl := Option.some.inj hc
    rcases hmark with rfl | rfl <;> decide

theorem head?_fraction (hfraction : SpellsFraction fraction digits)
    (h : ∀ c ∈ rest.head?, ¬c.isDigit) : ∀ c ∈ (fraction ++ rest).head?, ¬c.isDigit := by
  intro c hc
  cases hfraction with
  | none => exact h c hc
  | point hne hdigits =>
    obtain rfl := Option.some.inj hc
    decide

theorem exists_whole_eq_cons (hwhole : IsWhole whole) :
    ∃ c tail, whole = c :: tail ∧ c.isDigit := by
  cases hwhole with
  | zero => exact ⟨'0', [], rfl, rfl⟩
  | digits hne hdigits hzero =>
    obtain ⟨c, tail, rfl⟩ := List.exists_cons_of_ne_nil hne
    exact ⟨c, tail, rfl, hdigits c List.mem_cons_self⟩

/-- A number is read up to the first character that does not belong to it. -/
theorem take?_append {n : Numeral} (hn : Spells text n) (h : Stops rest) :
    take? (text ++ rest) = some (n, rest) := by
  cases hn with
  | unsigned hwhole hfraction hexponent =>
    have hmarks := head?_exponent hexponent h
    have hread := takeWhole?_append hwhole
      (head?_fraction hfraction fun c hc => (hmarks c hc).1)
    obtain ⟨c, tail, rfl, hc⟩ := exists_whole_eq_cons hwhole
    have hminus : c ≠ '-' := by
      rintro rfl
      contradiction
    simp only [List.append_assoc, List.cons_append] at hread ⊢
    simp [take?, hminus, hread, takeFraction?_append hfraction hmarks,
      takeExponent?_append hexponent h]
  | negative hwhole hfraction hexponent =>
    have hmarks := head?_exponent hexponent h
    have hread := takeWhole?_append hwhole
      (head?_fraction hfraction fun c hc => (hmarks c hc).1)
    simp [take?, hread, takeFraction?_append hfraction hmarks,
      takeExponent?_append hexponent h]

/-- What is read as a number spells it. -/
theorem exists_of_take? {n : Numeral} (h : take? text = some (n, rest)) :
    ∃ front, Spells front n ∧ text = front ++ rest := by
  simp only [take?, Option.bind_eq_bind, Option.bind_eq_some_iff, Option.pure_def,
    Option.some.injEq] at h
  obtain ⟨⟨whole, text₁⟩, hw, ⟨digits, text₂⟩, hf, ⟨power, text₃⟩, he, heq⟩ := h
  obtain ⟨rfl, rfl⟩ := Prod.mk.inj heq
  obtain ⟨hwhole, htext⟩ := of_takeWhole? hw
  obtain ⟨fraction, hfraction, rfl⟩ := exists_of_takeFraction? hf
  obtain ⟨exponent, hexponent, rfl⟩ := exists_of_takeExponent? he
  split at htext
  · refine ⟨_, .negative hwhole hfraction hexponent, ?_⟩
    simp only at htext
    simp only [htext, List.cons_append, List.append_assoc]
  · refine ⟨_, .unsigned hwhole hfraction hexponent, ?_⟩
    simp only at htext
    simp only [htext, List.append_assoc]

end Read

theorem isWhole_digitsOf (n : Nat) : IsWhole (digitsOf n) := by
  by_cases hn : n = 0
  · subst hn
    exact .zero
  · exact .digits (digitsOf_ne_nil n) (fun c hc => isDigit_of_mem_digitsOf hc)
      (head?_digitsOf_ne_zero (Nat.pos_of_ne_zero hn))

theorem spells_signed (n : Int) : Spells (signed n) (ofInt n) := by
  rw [← List.append_nil (signed n), signed, ofInt]
  split
  · next hn =>
    rw [decide_eq_true hn]
    exact .negative (isWhole_digitsOf _) .none .none
  · next hn =>
    rw [decide_eq_false hn]
    exact .unsigned (isWhole_digitsOf _) .none .none

/-- The whole number is written without fraction and exponent, and no minus is before a zero. -/
inductive Writes : Numeral → Int → Prop
  | unsigned {digits : List Char} : Writes ⟨false, digits, [], none⟩ (valueOf digits)
  | negative {digits : List Char} (h : valueOf digits ≠ 0) :
      Writes ⟨true, digits, [], none⟩ (-(valueOf digits : Int))

theorem toInt?_eq_some_iff {n : Numeral} {i : Int} : n.toInt? = some i ↔ Writes n i := by
  constructor
  · intro h
    obtain ⟨negative, digits, fraction, exponent⟩ := n
    simp only [toInt?, isPlain, Bool.and_eq_true, List.isEmpty_iff, Option.isNone_iff_eq_none] at h
    split at h
    · contradiction
    · next hplain =>
      obtain ⟨⟨rfl, rfl⟩, hzero⟩ : (fraction = [] ∧ exponent = none) ∧
          ¬(negative = true ∧ valueOf digits = 0) := by simpa only [not_or, not_not] using hplain
      obtain rfl := Option.some.inj h
      cases negative with
      | false => exact .unsigned
      | true => exact .negative fun h => hzero ⟨rfl, h⟩
  · intro h
    cases h with
    | unsigned => simp [toInt?, isPlain]
    | negative h => simp [toInt?, isPlain, h]

theorem toInt64?_eq_some_iff {n : Numeral} {i : Int64} :
    n.toInt64? = some i ↔ Writes n i.toInt := by
  rw [toInt64?, Option.bind_eq_some_iff, ← toInt?_eq_some_iff]
  simp only [int64?_eq_some_iff, exists_eq_right']

/-- A whole number comes back from its digits. -/
theorem writes_ofInt (n : Int) : Writes (ofInt n) n := by
  have hvalue : valueOf (digitsOf n.natAbs) = n.natAbs := valueOf_digitsOf _
  rw [ofInt]
  by_cases hn : n < 0
  · have hwrites : Writes ⟨true, digitsOf n.natAbs, [], none⟩ (-(valueOf (digitsOf n.natAbs) : Int)) :=
      .negative (by omega)
    have hneg : -(valueOf (digitsOf n.natAbs) : Int) = n := by omega
    rw [hneg] at hwrites
    rw [decide_eq_true hn]
    exact hwrites
  · have hwrites : Writes ⟨false, digitsOf n.natAbs, [], none⟩ (valueOf (digitsOf n.natAbs)) :=
      .unsigned
    have hnat : (valueOf (digitsOf n.natAbs) : Int) = n := by omega
    rw [hnat] at hwrites
    rw [decide_eq_false hn]
    exact hwrites

theorem toInt64?_ofInt (n : Int64) : (ofInt n.toInt).toInt64? = some n :=
  toInt64?_eq_some_iff.mpr (writes_ofInt _)

end Numeral

/-! ## Strings -/

namespace Quoted

/-- The text spells the pieces of a string. -/
inductive Spells : List Char → List Piece → Prop
  | nil : Spells [] []
  | plain {c : Char} {text : List Char} {pieces : List Piece} (hquote : c ≠ '"')
      (hslash : c ≠ '\\') (hcontrol : 0x20 ≤ c.toNat) (h : Spells text pieces) :
      Spells (c :: text) (.char c :: pieces)
  | short {e c : Char} {text : List Char} {pieces : List Piece} (he : short? e = some c)
      (h : Spells text pieces) : Spells ('\\' :: e :: text) (.char c :: pieces)
  | unicode {a b c d : Char} {piece : Piece} {text : List Char} {pieces : List Piece}
      (hpiece : piece? a b c d = some piece) (h : Spells text pieces) :
      Spells ('\\' :: 'u' :: a :: b :: c :: d :: text) (piece :: pieces)

variable {text rest : List Char} {pieces : List Piece}

theorem ne_u_of_short? {e c : Char} (h : short? e = some c) : e ≠ 'u' := by
  rintro rfl
  contradiction

/-- A string is read up to its closing mark. -/
theorem take?_append (h : Spells text pieces) (rest : List Char) :
    take? (text ++ '"' :: rest) = some (pieces, rest) := by
  induction h with
  | nil => simp [take?]
  | plain hquote hslash hcontrol h ih => simp [take?, hslash, ih, Nat.not_lt.mpr hcontrol]
  | short he h ih => simp [take?, he, ne_u_of_short? he, ih]
  | unicode hpiece h ih => simp [take?, hpiece, ih]

/-- What is read as a string spells its pieces. -/
theorem exists_of_take? (h : take? text = some (pieces, rest)) :
    ∃ front, Spells front pieces ∧ text = front ++ '"' :: rest := by
  fun_induction take? text generalizing pieces with
  | case1 => contradiction
  | case2 tail =>
    obtain ⟨rfl, rfl⟩ := Prod.mk.inj (Option.some.inj h)
    exact ⟨[], .nil, rfl⟩
  | case3 a b c d tail ih =>
    simp only [Option.bind_eq_bind, Option.bind_eq_some_iff, Option.pure_def,
      Option.some.injEq] at h
    obtain ⟨piece, hpiece, ⟨others, last⟩, htake, heq⟩ := h
    obtain ⟨rfl, rfl⟩ := Prod.mk.inj heq
    obtain ⟨front, hfront, rfl⟩ := ih htake
    exact ⟨_, .unicode hpiece hfront, rfl⟩
  | case4 e tail hne ih =>
    simp only [Option.bind_eq_bind, Option.bind_eq_some_iff, Option.pure_def,
      Option.some.injEq] at h
    obtain ⟨c, hc, ⟨others, last⟩, htake, heq⟩ := h
    obtain ⟨rfl, rfl⟩ := Prod.mk.inj heq
    obtain ⟨front, hfront, rfl⟩ := ih htake
    exact ⟨_, .short hc hfront, rfl⟩
  | case5 => contradiction
  | case6 c tail hquote hunicode hshort hplain ih =>
    simp only [Option.bind_eq_bind, Option.bind_eq_some_iff, Option.pure_def,
      Option.some.injEq] at h
    obtain ⟨⟨others, last⟩, htake, heq⟩ := h
    obtain ⟨rfl, rfl⟩ := Prod.mk.inj heq
    obtain ⟨front, hfront, rfl⟩ := ih htake
    rw [not_or, Nat.not_lt] at hplain
    exact ⟨_, .plain hquote hplain.2 hplain.1 hfront, rfl⟩

theorem hexDigit?_hexChar {n : Nat} (h : n < 16) : hexDigit? (hexChar n) = some n := by
  revert n
  decide

/-- A control character comes back from its number in hexadecimal digits. -/
theorem piece?_control {c : Char} (h : c.toNat < 0x20) :
    piece? '0' '0' (hexChar (c.toNat / 16)) (hexChar (c.toNat % 16)) = some (.char c) := by
  have hzero : hexDigit? '0' = some 0 := rfl
  have hunit : c.toNat / 16 * 16 + c.toNat % 16 = c.toNat := by omega
  have hleading : isLeading c.toNat = false := by
    simp only [isLeading, Bool.and_eq_false_imp, decide_eq_true_eq, decide_eq_false_iff_not]
    omega
  have htrailing : isTrailing c.toNat = false := by
    simp only [isTrailing, Bool.and_eq_false_imp, decide_eq_true_eq, decide_eq_false_iff_not]
    omega
  simp [piece?, hzero, hexDigit?_hexChar (n := c.toNat / 16) (by omega),
    hexDigit?_hexChar (n := c.toNat % 16) (by omega), hunit, hleading, htrailing,
    Char.ofNat_toNat]

/-- A character is spelled by the way in which it is escaped. -/
theorem spells_escape (c : Char) (h : Spells text pieces) :
    Spells (escape c ++ text) (.char c :: pieces) := by
  rw [escape]
  split_ifs with h₁ h₂ h₃ h₄ h₅ h₆ h₇ h₈
  · subst h₁
    exact .short rfl h
  · subst h₂
    exact .short rfl h
  · subst h₃
    exact .short rfl h
  · subst h₄
    exact .short rfl h
  · subst h₅
    exact .short rfl h
  · subst h₆
    exact .short rfl h
  · subst h₇
    exact .short rfl h
  · exact .unicode (piece?_control h₈) h
  · exact .plain h₁ h₂ (Nat.not_lt.mp h₈) h

theorem spells_flatMap_escape (text : List Char) :
    Spells (text.flatMap escape) (text.map Piece.char) := by
  induction text with
  | nil => exact .nil
  | cons c text ih => exact spells_escape c ih

theorem join?_char (text : List Char) : join? (text.map Piece.char) = some text := by
  induction text with
  | nil => rfl
  | cons c text ih => simp [join?, ih]

end Quoted

end Json

end Daybook
