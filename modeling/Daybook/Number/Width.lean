/-! Whole numbers of 32 and of 64 bits, the highest bit being the sign. -/

namespace Daybook

/-- The first number that does not fit 32 bits. -/
def limit32 : Nat := 2147483648

/-- The first number that does not fit 64 bits. -/
def limit64 : Nat := 9223372036854775808

/-- The first number that does not fit 64 bits without a sign. -/
def wordLimit : Nat := 18446744073709551616

/-- The number lies from `-limit` on below `limit`. -/
def Within (limit : Nat) (n : Int) : Prop :=
  -(limit : Int) ≤ n ∧ n < limit

instance (limit : Nat) (n : Int) : Decidable (Within limit n) :=
  inferInstanceAs (Decidable (_ ∧ _))

/-- The whole number in 64 bits, if it fits. -/
def int64? (n : Int) : Option Int64 :=
  if Within limit64 n then some (Int64.ofInt n) else none

theorem within_toInt (x : Int64) : Within limit64 x.toInt :=
  ⟨x.le_toInt, x.toInt_lt⟩

theorem int64?_eq_some_iff {n : Int} {x : Int64} : int64? n = some x ↔ x.toInt = n := by
  simp only [int64?]
  constructor
  · intro h
    split at h
    · next hn =>
      obtain rfl := Option.some.inj h
      exact Int64.toInt_ofInt_of_le hn.1 hn.2
    · contradiction
  · rintro rfl
    rw [if_pos (within_toInt x), Int64.ofInt_toInt]

end Daybook
