import Daybook.Text.Whole
import Mathlib.Logic.Function.Defs

/-! # Whole numbers in texts

What is read as a whole number are digits with at most one sign before them. A number that is written is
read as itself. -/

namespace Daybook.Text

theorem mem_signed {n : Int} {c : Char} (h : c ∈ signed n) : c = '-' ∨ c.isDigit := by
  rw [signed] at h
  split at h
  · rcases List.mem_cons.mp h with rfl | h
    · exact .inl rfl
    · exact .inr (isDigit_of_mem_digitsOf h)
  · exact .inr (isDigit_of_mem_digitsOf h)

theorem exists_digitChar {c : Char} (h : c.isDigit) : ∃ n < 10, c = Nat.digitChar n := by
  have hall : ∀ n < 10, (Nat.digitChar n).toNat = n + 48 := by decide
  have hrange : 48 ≤ c.toNat ∧ c.toNat ≤ 57 := Char.isDigit_iff_toNat.mp h
  have hlt : c.toNat - 48 < 10 := by omega
  refine ⟨c.toNat - 48, hlt, Char.toNat_inj.mp ?_⟩
  rw [hall _ hlt, Nat.sub_add_cancel hrange.1]

/-- What is so of the minus sign and of each digit is so of all characters of a written number. -/
theorem forall_mem_signed {p : Char → Prop} (hminus : p '-') (hdigits : ∀ n < 10, p (Nat.digitChar n))
    (n : Int) : ∀ c ∈ signed n, p c := by
  intro c hc
  rcases mem_signed hc with rfl | hdigit
  · exact hminus
  · obtain ⟨n, hn, rfl⟩ := exists_digitChar hdigit
    exact hdigits n hn

/-- The text is a number that people may type: digits, with at most one sign before them. -/
inductive Denotes : List Char → Int → Prop
  | bare {digits : List Char} (hne : digits ≠ []) (hdigits : ∀ c ∈ digits, c.isDigit) :
      Denotes digits (valueOf digits)
  | plus {digits : List Char} (hne : digits ≠ []) (hdigits : ∀ c ∈ digits, c.isDigit) :
      Denotes ('+' :: digits) (valueOf digits)
  | minus {digits : List Char} (hne : digits ≠ []) (hdigits : ∀ c ∈ digits, c.isDigit) :
      Denotes ('-' :: digits) (-(valueOf digits : Int))

theorem readNat?_eq_some_iff {text : List Char} {n : Nat} : readNat? text = some n ↔
    ∃ digits, digits ≠ [] ∧ (∀ c ∈ digits, c.isDigit) ∧ valueOf digits = n ∧
      (text = digits ∨ text = '+' :: digits) := by
  constructor
  · intro h
    simp only [readNat?, Option.ite_none_right_eq_some, Option.some.injEq, List.all_eq_true] at h
    obtain ⟨⟨hne, hdigits⟩, hvalue⟩ := h
    refine ⟨_, hne, hdigits, hvalue, ?_⟩
    split
    · exact .inr rfl
    · exact .inl rfl
  · rintro ⟨digits, hne, hdigits, rfl, rfl | rfl⟩
    · rw [readNat?.eq_def]
      split
      · exact absurd (hdigits '+' List.mem_cons_self) (by decide)
      · simpa [hne] using hdigits
    · simpa [readNat?, hne] using hdigits

theorem readInt?_eq_some_iff {text : List Char} {n : Int} :
    readInt? text = some n ↔ Denotes text n := by
  constructor
  · intro h
    rw [readInt?.eq_def] at h
    split at h
    · next digits =>
      rw [Option.ite_none_right_eq_some, List.all_eq_true] at h
      obtain ⟨⟨hne, hdigits⟩, hvalue⟩ := h
      obtain rfl := Option.some.inj hvalue
      exact .minus hne hdigits
    · obtain ⟨m, hm, rfl⟩ := Option.map_eq_some_iff.mp h
      obtain ⟨digits, hne, hdigits, rfl, rfl | rfl⟩ := readNat?_eq_some_iff.mp hm
      · exact .bare hne hdigits
      · exact .plus hne hdigits
  · intro h
    cases h with
    | bare hne hdigits =>
      rw [readInt?.eq_def]
      split
      · exact absurd (hdigits '-' List.mem_cons_self) (by decide)
      · exact Option.map_eq_some_iff.mpr
          ⟨_, readNat?_eq_some_iff.mpr ⟨_, hne, hdigits, rfl, .inl rfl⟩, rfl⟩
    | plus hne hdigits =>
      exact Option.map_eq_some_iff.mpr
        ⟨_, readNat?_eq_some_iff.mpr ⟨_, hne, hdigits, rfl, .inr rfl⟩, rfl⟩
    | minus hne hdigits => simpa [readInt?, hne] using hdigits

theorem denotes_signed (n : Int) : Denotes (signed n) n := by
  have hne := digitsOf_ne_nil n.natAbs
  have hdigits : ∀ c ∈ digitsOf n.natAbs, c.isDigit := fun c hc => isDigit_of_mem_digitsOf hc
  rw [signed]
  split
  · next hn =>
    have h := Denotes.minus hne hdigits
    rw [valueOf_digitsOf] at h
    rwa [show -(n.natAbs : Int) = n by omega] at h
  · next hn =>
    have h := Denotes.bare hne hdigits
    rw [valueOf_digitsOf] at h
    rwa [show (n.natAbs : Int) = n by omega] at h

theorem readWithin?_eq_some_iff {limit : Nat} {text : List Char} {n : Int} :
    readWithin? limit text = some n ↔ Denotes text n ∧ Within limit n := by
  rw [readWithin?, Option.filter_eq_some_iff, readInt?_eq_some_iff, decide_eq_true_eq]

/-- The characters of a number have one byte each. -/
theorem Denotes.toNat_lt {text : List Char} {n : Int} (h : Denotes text n) :
    ∀ c ∈ text, c.toNat < 0x80 := by
  have hall : ∀ n < 10, (Nat.digitChar n).toNat < 0x80 := by decide
  have hdigit : ∀ c : Char, c.isDigit → c.toNat < 0x80 := by
    intro c hc
    obtain ⟨n, hn, rfl⟩ := exists_digitChar hc
    exact hall n hn
  cases h with
  | bare hne hdigits => exact fun c hc => hdigit c (hdigits c hc)
  | plus hne hdigits | minus hne hdigits =>
    exact List.forall_mem_cons.mpr ⟨by decide, fun c hc => hdigit c (hdigits c hc)⟩

theorem signed_injective : Function.Injective signed := by
  intro n m h
  have hn := readInt?_eq_some_iff.mpr (denotes_signed n)
  have hm := readInt?_eq_some_iff.mpr (denotes_signed m)
  rw [h, hm] at hn
  exact (Option.some.inj hn).symm

end Daybook.Text
