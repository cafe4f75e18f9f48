import Daybook.Activity.Timeline
import Mathlib.Algebra.BigOperators.Fin
import Mathlib.Data.Int.ModEq
import Mathlib.Tactic.Ring

/-! # The colors of names

The hash of a name is a polynomial over its 16-bit units, less as many times 2^32 as it takes to fit 32
bits with a sign. Its absolute value decides about the color. -/

namespace Daybook

namespace Text

/-- The 16-bit units of a text. Characters above U+FFFF are split into two halves of ten bits. -/
inductive HasUnits : List Char → List Nat → Prop
  | nil : HasUnits [] []
  | single {c : Char} {text : List Char} {units : List Nat} (hc : c.toNat < 0x10000)
      (h : HasUnits text units) : HasUnits (c :: text) (c.toNat :: units)
  | pair {c : Char} {text : List Char} {units : List Nat} {high low : Nat} (hhigh : high < 0x400)
      (hlow : low < 0x400) (hc : c.toNat = 0x10000 + high * 0x400 + low) (h : HasUnits text units) :
      HasUnits (c :: text) ((0xD800 + high) :: (0xDC00 + low) :: units)

theorem toNat_lt (c : Char) : c.toNat < 0x110000 := by
  rcases c.valid with h | ⟨-, h⟩
  · exact Nat.lt_trans h (by decide)
  · exact h

theorem hasUnits_flatMap (text : List Char) : HasUnits text (text.flatMap unitsOfChar) := by
  induction text with
  | nil => exact .nil
  | cons c text ih =>
    rw [List.flatMap_cons, unitsOfChar]
    split
    · next hc => exact .single hc ih
    · next hc =>
      have hlt := toNat_lt c
      exact .pair (by omega) (by omega) (by omega) ih

theorem HasUnits.eq_flatMap {text : List Char} {units : List Nat} (h : HasUnits text units) :
    units = text.flatMap unitsOfChar := by
  induction h with
  | nil => rfl
  | single hc _ ih => rw [List.flatMap_cons, unitsOfChar, if_pos hc, ← ih, List.singleton_append]
  | @pair c text units high low hhigh hlow hc _ ih =>
    have hquotient : (c.toNat - 0x10000) / 0x400 = high := by omega
    have hremainder : (c.toNat - 0x10000) % 0x400 = low := by omega
    rw [List.flatMap_cons, unitsOfChar, if_neg (by omega), ← ih, hquotient, hremainder]
    rfl

theorem hasUnits_iff {text : String} {units : List Nat} :
    HasUnits text.toList units ↔ units16 text = units := by
  constructor
  · intro h
    exact h.eq_flatMap.symm
  · rintro rfl
    exact hasUnits_flatMap text.toList

end Text

namespace Palette

/-- The units as the coefficients of powers of 31, the last one as that of the zeroth. -/
def polynomial (units : List Nat) : Int :=
  ∑ i : Fin units.length, (units[i] : Int) * 31 ^ (units.length - 1 - i)

theorem polynomial_cons (unit : Nat) (units : List Nat) :
    polynomial (unit :: units) = unit * 31 ^ units.length + polynomial units := by
  have hplace : ∀ i : Fin units.length, units.length + 1 - 1 - (i.val + 1) = units.length - 1 - i := by
    omega
  simp only [polynomial, List.length_cons, Fin.sum_univ_succ, Fin.val_succ, hplace]
  rfl

/-- Products and sums of 32 bits are those of whole numbers, up to multiples of 2^32. -/
theorem toInt_step (h : Int32) (unit : Nat) :
    (h * 31 + Int32.ofNat unit).toInt ≡ h.toInt * 31 + unit [ZMOD 2 ^ 32] := by
  have hbmod : ∀ n : Int, n.bmod (2 ^ 32) ≡ n [ZMOD 2 ^ 32] := fun n => Int.bmod_emod
  calc (h * 31 + Int32.ofNat unit).toInt
    _ ≡ (h * 31).toInt + (Int32.ofNat unit).toInt [ZMOD 2 ^ 32] := by
      rw [Int32.toInt_add]
      exact hbmod _
    _ ≡ h.toInt * 31 + unit [ZMOD 2 ^ 32] := by
      refine Int.ModEq.add ?_ ?_
      · rw [Int32.toInt_mul]
        exact hbmod _
      · rw [Int32.toInt_ofNat']
        exact hbmod _

/-- The units that follow raise those before them by a power of 31 each. -/
theorem toInt_foldl (units : List Nat) (h : Int32) :
    (units.foldl (fun h unit => h * 31 + Int32.ofNat unit) h).toInt ≡
      h.toInt * 31 ^ units.length + polynomial units [ZMOD 2 ^ 32] := by
  induction units generalizing h with
  | nil => simp [polynomial]
  | cons unit units ih =>
    rw [List.foldl_cons, polynomial_cons, List.length_cons]
    calc (units.foldl (fun h unit => h * 31 + Int32.ofNat unit) (h * 31 + Int32.ofNat unit)).toInt
      _ ≡ (h * 31 + Int32.ofNat unit).toInt * 31 ^ units.length + polynomial units [ZMOD 2 ^ 32] :=
        ih _
      _ ≡ (h.toInt * 31 + unit) * 31 ^ units.length + polynomial units [ZMOD 2 ^ 32] :=
        ((toInt_step h unit).mul_right _).add_right _
      _ = h.toInt * 31 ^ (units.length + 1) + (unit * 31 ^ units.length + polynomial units) := by
        ring

theorem toInt_hash (name : String) :
    (hash name).toInt ≡ polynomial (Text.units16 name) [ZMOD 2 ^ 32] := by
  have h := toInt_foldl (Text.units16 name) 0
  rwa [Int32.toInt_zero, Int.zero_mul, Int.zero_add] at h

/-- A number of 32 bits is known by its remainder. -/
theorem eq_of_modEq {s t : Int32} (h : s.toInt ≡ t.toInt [ZMOD 2 ^ 32]) : s = t := by
  have hs := s.le_toInt
  have hs' := s.toInt_lt
  have ht := t.le_toInt
  have ht' := t.toInt_lt
  rw [Int.ModEq] at h
  exact Int32.toInt_inj.mp (by omega)

variable {name : String} {units : List Nat}

/-- The hash of a name is the number of 32 bits with a sign that leaves the same remainder as the
polynomial over the 16-bit units of the name. The place of its color is the remainder of the absolute
value of the hash. There is a color at each such place. -/
theorem colorOf_by_polynomial (h : Text.HasUnits name.toList units) :
    (∀ s : Int32, s.toInt ≡ ∑ i : Fin units.length, (units[i] : Int) * 31 ^ (units.length - 1 - i)
      [ZMOD 2 ^ 32] ↔ s = hash name) ∧
    place name = (hash name).toInt.natAbs % 20 ∧ place name < 20 ∧
    colors[place name]? = some (colorOf name) := by
  have hhash := toInt_hash name
  rw [Text.hasUnits_iff.mp h] at hhash
  refine ⟨fun s => ⟨fun hs => ?_, ?_⟩, place_eq name, place_lt name, ?_⟩
  · exact eq_of_modEq (hs.trans hhash.symm)
  · rintro rfl
    exact hhash
  · rw [Vector.getElem?_eq_getElem (place_lt name)]
    rfl

/-- A name with the smallest hash of all, and a name of one character that has two units. -/
theorem colorOf_by_polynomial_smallest_and_pair :
    let units := [112, 111, 108, 121, 103, 101, 110, 101, 108, 117, 98, 114, 105, 99, 97, 110, 116, 115]
    Text.HasUnits "polygenelubricants".toList units ∧ hash "polygenelubricants" = Int32.minValue ∧
    place "polygenelubricants" = 8 ∧ colorOf "polygenelubricants" = "#b82e2e" ∧
    Text.HasUnits "😀".toList [0xD83D, 0xDE00] ∧ hash "😀" = 0xD83D * 31 + 0xDE00 ∧
    place "😀" = 19 ∧ colorOf "😀" = "#3b3eac" := by
  intro units
  have hunits : Text.HasUnits "polygenelubricants".toList units := Text.hasUnits_iff.mpr rfl
  have hpair : Text.HasUnits "😀".toList [0xD83D, 0xDE00] := Text.hasUnits_iff.mpr rfl
  obtain ⟨hhash, hplace, -, hcolor⟩ := colorOf_by_polynomial hunits
  obtain ⟨hhash', hplace', -, hcolor'⟩ := colorOf_by_polynomial hpair
  have hsmallest : Int32.minValue = hash "polygenelubricants" := (hhash _).mp (by decide +kernel)
  have hpaired : 0xD83D * 31 + 0xDE00 = hash "😀" := (hhash' _).mp (by decide +kernel)
  rw [← hsmallest] at hplace
  rw [← hpaired] at hplace'
  rw [hplace] at hcolor
  rw [hplace'] at hcolor'
  exact ⟨hunits, hsmallest.symm, hplace, Option.some.inj hcolor.symm, hpair, hpaired.symm, hplace',
    Option.some.inj hcolor'.symm⟩

end Palette

end Daybook
