import Mathlib.Data.List.Forall2

/-! # Computations of several steps

A computation comes to an end if each of its steps does. It fails with what the first failing step says,
whatever the steps after it would say. -/

namespace Daybook

variable {ε α β : Type} {e : ε}

section Bind

variable {x : Except ε α} {f : α → Except ε β}

theorem bind_eq_ok_iff {b : β} : (x >>= f) = .ok b ↔ ∃ a, x = .ok a ∧ f a = .ok b := by
  cases x <;> simp [bind, Except.bind]

/-- A computation of two steps fails in one of them. -/
theorem bind_eq_error_iff :
    (x >>= f) = .error e ↔ x = .error e ∨ ∃ a, x = .ok a ∧ f a = .error e := by
  cases x <;> simp [bind, Except.bind]

theorem map_eq_ok_iff {g : α → β} {b : β} : (g <$> x) = .ok b ↔ ∃ a, x = .ok a ∧ g a = b := by
  cases x <;> simp [Functor.map, Except.map]

theorem exists_eq_ok_iff : (∃ a, x = .ok a) ↔ ∀ e, x ≠ .error e := by
  cases x <;> simp

end Bind

section Traversal

variable {f : α → Except ε β} {as : List α} {bs : List β}

theorem mapM_eq_ok_iff : as.mapM f = .ok bs ↔ List.Forall₂ (fun a b => f a = .ok b) as bs := by
  induction as generalizing bs with
  | nil => simp [pure, Except.pure, eq_comm]
  | cons a as ih =>
    rw [List.mapM_cons, List.forall₂_cons_left_iff]
    simp only [bind_eq_ok_iff, ih]
    constructor
    · rintro ⟨b, hb, bs', hbs, heq⟩
      obtain rfl := Except.ok.inj heq
      exact ⟨b, bs', hb, hbs, rfl⟩
    · rintro ⟨b, bs', hb, hbs, rfl⟩
      exact ⟨b, hb, bs', hbs, rfl⟩

/-- The items before the one that fails are all passed. -/
theorem mapM_eq_error_iff : as.mapM f = .error e ↔ ∃ front a rest, as = front ++ a :: rest ∧
    (∃ bs, List.Forall₂ (fun a b => f a = .ok b) front bs) ∧ f a = .error e := by
  induction as with
  | nil => simp [pure, Except.pure]
  | cons a as ih =>
    rw [List.mapM_cons, bind_eq_error_iff]
    constructor
    · rintro (ha | ⟨b, hb, hrest⟩)
      · exact ⟨[], a, as, rfl, ⟨[], .nil⟩, ha⟩
      · rcases bind_eq_error_iff.mp hrest with has | ⟨bs, -, hend⟩
        · obtain ⟨front, bad, rest, rfl, ⟨bs, hfront⟩, hbad⟩ := ih.mp has
          exact ⟨a :: front, bad, rest, rfl, ⟨b :: bs, .cons hb hfront⟩, hbad⟩
        · contradiction
    · rintro ⟨front, bad, rest, heq, ⟨bs, hfront⟩, hbad⟩
      cases hfront with
      | nil =>
        obtain ⟨rfl, rfl⟩ := List.cons.inj heq
        exact .inl hbad
      | cons hb hfront =>
        obtain ⟨rfl, rfl⟩ := List.cons.inj heq
        have hrest := ih.mpr ⟨_, bad, rest, rfl, ⟨_, hfront⟩, hbad⟩
        exact .inr ⟨_, hb, bind_eq_error_iff.mpr (.inl hrest)⟩

end Traversal

end Daybook
