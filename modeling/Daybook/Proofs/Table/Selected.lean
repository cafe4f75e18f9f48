import Daybook.Table.Query
import Mathlib.Algebra.Order.Field.Basic
import Mathlib.Algebra.Order.Field.Rat

/-! # Rows inside and outside the bounds

A row is inside the bounds if its start is a number there, whole or not. The queries for a range look at
no row outside, also when they fail. What they find in two tables with the same rows in some bounds is
the same for all ranges inside these bounds. -/

namespace Daybook

/-- The first bounds lie inside the second ones. -/
structure Bounds.Inside (c b : Bounds) : Prop where
  lower : b.lower ≤ c.lower
  upper : c.upper ≤ b.upper

theorem Binary.den_pos (m : Binary) : 0 < m.den := by
  rw [den, Nat.one_shiftLeft]
  exact Nat.two_pow_pos _

theorem Real.atLeast_finite_iff {negative : Bool} {m : Binary} {n : Int} :
    (finite negative m).atLeast n ↔ (n : ℚ) ≤ signedNum negative m / m.den := by
  rw [atLeast, decide_eq_true_eq, le_div_iff₀ (Nat.cast_pos.mpr m.den_pos)]
  exact_mod_cast Iff.rfl

namespace Table

variable {b c : Bounds} {rows : List Row}

/-! ## Starts as numbers -/

/-- The number in a cell. An infinite real is left out, as it lies in no bounds. -/
def Cell.number? : Cell → Option ℚ
  | .integer n => some n.toInt
  | .real (.finite negative magnitude) => some (Real.signedNum negative magnitude / magnitude.den)
  | _ => none

/-- The row starts at a number in the bounds. -/
def Row.StartsIn (b : Bounds) (r : Row) : Prop :=
  ∃ q, r.start.number? = some q ∧ (b.lower : ℚ) ≤ q ∧ q < b.upper

theorem Cell.within_iff {cell : Cell} :
    cell.within b ↔ ∃ q, cell.number? = some q ∧ (b.lower : ℚ) ≤ q ∧ q < b.upper := by
  cases cell with
  | null => simp [within, number?]
  | integer n => simp [within, number?]
  | real x =>
    cases x with
    | infinite negative => cases negative <;> simp [within, number?, Real.atLeast]
    | finite negative m =>
      simp only [within, Bool.and_eq_true, Bool.not_eq_true', ← Bool.not_eq_true,
        Real.atLeast_finite_iff, not_le, number?, Option.some.injEq, exists_eq_left']
  | text t => simp [within, number?]
  | blob bytes => simp [within, number?]

instance (b : Bounds) (r : Row) : Decidable (r.StartsIn b) :=
  decidable_of_iff (r.start.within b) Cell.within_iff

theorem selected_eq_filter (b : Bounds) (rows : List Row) :
    selected b rows = rows.filter fun r => r.StartsIn b := by
  apply List.filter_congr
  intro r _
  rw [Bool.eq_iff_iff, decide_eq_true_eq]
  exact Cell.within_iff

theorem Row.StartsIn.of_inside {r : Row} (h : c.Inside b) (hr : r.StartsIn c) : r.StartsIn b := by
  obtain ⟨q, hq, hlower, hupper⟩ := hr
  have hlow : (b.lower : ℚ) ≤ c.lower := by exact_mod_cast h.lower
  have hhigh : (c.upper : ℚ) ≤ b.upper := by exact_mod_cast h.upper
  exact ⟨q, hq, hlow.trans hlower, hupper.trans_le hhigh⟩

/-! ## Queries -/

/-- Rows of inner bounds are among those of outer bounds. -/
theorem selected_selected (h : c.Inside b) (rows : List Row) :
    selected c (selected b rows) = selected c rows := by
  rw [selected_eq_filter, selected_eq_filter, selected_eq_filter, List.filter_filter]
  apply List.filter_congr
  intro r _
  rw [Bool.eq_iff_iff, Bool.and_eq_true, decide_eq_true_eq, decide_eq_true_eq, and_iff_left_iff_imp]
  exact Row.StartsIn.of_inside h

theorem records?_selected (h : c.Inside b) (rows : List Row) :
    records? c (selected b rows) = records? c rows := by
  rw [records?, records?, selected_selected h]

theorem usages?_selected (h : c.Inside b) (rows : List Row) :
    usages? c (selected b rows) = usages? c rows := by
  rw [usages?, usages?, selected_selected h]

/-- A query that depends on the rows of some bounds alone finds the same in tables that agree there. -/
theorem bind_eq_of_selected_eq {α : Type} {query : List Row → Option α} {t₁ t₂ : Option (List Row)}
    (hquery : ∀ rows, query (selected b rows) = query rows)
    (h : t₁.map (selected b) = t₂.map (selected b)) : t₁.bind query = t₂.bind query := by
  have hmap : ∀ t : Option (List Row), t.bind query = (t.map (selected b)).bind query := by
    intro t
    cases t with
    | none => rfl
    | some rows => exact (hquery rows).symm
  rw [hmap t₁, h, ← hmap t₂]

end Table

end Daybook
