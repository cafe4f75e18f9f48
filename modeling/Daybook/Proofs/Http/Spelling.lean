import Daybook.Proofs.Http.Query
import Mathlib.Data.List.Forall2
import Mathlib.Data.List.TakeWhile

/-! # The spellings of a form

Which queries spell which pairs. A form has many spellings: any byte may be escaped, in either case, and
empty pieces may stand anywhere. Whatever the spelling, the pairs are read off it as they were meant. -/

namespace Daybook.Http.Form

/-! ## Bytes -/

/-- The first byte is the hexadecimal digit of the second one, in either case. -/
def HexDigit (o value : UInt8) : Prop :=
  value < 16 ∧
    (o = octet (Nat.digitChar value.toNat) ∨ o = octet (Nat.digitChar value.toNat).toUpper)

instance (o value : UInt8) : Decidable (HexDigit o value) :=
  inferInstanceAs (Decidable (_ ∧ _))

theorem hexValue?_eq_some_iff {o value : UInt8} : hexValue? o = some value ↔ HexDigit o value := by
  constructor
  · intro h
    have hall : ∀ n < 256, ∀ v ∈ hexValue? (UInt8.ofNat n), HexDigit (UInt8.ofNat n) v := by
      decide +kernel
    have hdigit := hall o.toNat o.toNat_lt value
    rw [UInt8.ofNat_toNat] at hdigit
    exact hdigit h
  · rintro ⟨hlt, ho⟩
    have hall : ∀ n < 16, hexValue? (octet (Nat.digitChar n)) = some (UInt8.ofNat n) ∧
        hexValue? (octet (Nat.digitChar n).toUpper) = some (UInt8.ofNat n) := by
      decide
    obtain ⟨hlower, hupper⟩ := hall value.toNat hlt
    rw [UInt8.ofNat_toNat] at hlower hupper
    rcases ho with rfl | rfl
    · exact hlower
    · exact hupper

/-- The first bytes are put as the second ones: plainly, a space as a plus sign, or any byte as two
hexadecimal digits after a percent sign. A percent sign before anything else stands for itself. -/
inductive Spelled : Octets → Octets → Prop
  | nil : Spelled [] []
  | plain {o : UInt8} {written meant : Octets} (hpercent : o ≠ 0x25) (hplus : o ≠ 0x2B)
      (h : Spelled written meant) : Spelled (o :: written) (o :: meant)
  | space {written meant : Octets} (h : Spelled written meant) :
      Spelled (0x2B :: written) (0x20 :: meant)
  | escaped {high low a b : UInt8} {written meant : Octets} (hhigh : HexDigit high a)
      (hlow : HexDigit low b) (h : Spelled written meant) :
      Spelled (0x25 :: high :: low :: written) ((a * 16 + b) :: meant)
  | percent {written meant : Octets}
      (hnone : ∀ high low rest a b, written = high :: low :: rest →
        ¬(HexDigit high a ∧ HexDigit low b))
      (h : Spelled written meant) : Spelled (0x25 :: written) (0x25 :: meant)

theorem decode_percent {written : Octets} (hnone : ∀ high low rest a b,
    written = high :: low :: rest → ¬(HexDigit high a ∧ HexDigit low b)) :
    decode (0x25 :: written) = 0x25 :: decode written := by
  match written with
  | [] => rfl
  | [o] => rfl
  | high :: low :: rest =>
    rw [decode]
    split
    · next a b hhigh hlow =>
      rw [hexValue?_eq_some_iff] at hhigh hlow
      exact absurd ⟨hhigh, hlow⟩ (hnone high low rest a b rfl)
    · rfl

theorem decode_eq_iff {written meant : Octets} : decode written = meant ↔ Spelled written meant := by
  constructor
  · rintro rfl
    fun_induction decode written with
    | case1 => exact .nil
    | case2 high low rest a b hlow hhigh ih =>
      exact .escaped (hexValue?_eq_some_iff.mp hhigh) (hexValue?_eq_some_iff.mp hlow) ih
    | case3 high low rest hnone ih =>
      refine .percent (fun high' low' rest' a b heq => ?_) ih
      simp only [List.cons.injEq] at heq
      obtain ⟨rfl, rfl, -⟩ := heq
      rintro ⟨hhigh, hlow⟩
      exact hnone a b (hexValue?_eq_some_iff.mpr hhigh) (hexValue?_eq_some_iff.mpr hlow)
    | case4 rest ih => exact .space ih
    | case5 o rest hshort hplus ih =>
      by_cases hpercent : o = 0x25
      · subst hpercent
        exact .percent (fun high low rest' a b heq => (hshort high low rest' rfl heq).elim) ih
      · exact .plain hpercent hplus ih
  · intro h
    induction h with
    | nil => rfl
    | plain hpercent hplus h ih => rw [decode_cons hpercent hplus, ih]
    | space h ih => rw [decode, ih]
    | escaped hhigh hlow h ih =>
      simp only [decode, hexValue?_eq_some_iff.mpr hhigh, hexValue?_eq_some_iff.mpr hlow, ih]
    | percent hnone h ih => rw [decode_percent hnone, ih]

/-! ## Pairs -/

/-- The piece puts a key and a value with an equals sign between them, or a key alone. -/
inductive SpelledPair : Octets → Octets × Octets → Prop
  | full {key value meantKey meantValue : Octets} (hequals : 0x3D ∉ key)
      (hkey : Spelled key meantKey) (hvalue : Spelled value meantValue) :
      SpelledPair (key ++ 0x3D :: value) (meantKey, meantValue)
  | bare {key meantKey : Octets} (hequals : 0x3D ∉ key) (hkey : Spelled key meantKey) :
      SpelledPair key (meantKey, [])

theorem pair_of_notMem {key : Octets} (h : 0x3D ∉ key) : pair key = (decode key, []) := by
  have hkey : ∀ o ∈ key, decide (o ≠ 0x3D) := fun o ho =>
    decide_eq_true fun heq => h (heq ▸ ho)
  rw [pair, List.takeWhile_eq_self_iff.mpr hkey, List.dropWhile_eq_nil_iff.mpr hkey]
  rfl

theorem pair_eq_iff {piece : Octets} {member : Octets × Octets} :
    pair piece = member ↔ SpelledPair piece member := by
  constructor
  · rintro rfl
    by_cases hmem : 0x3D ∈ piece
    · obtain ⟨key, value, rfl, hkey⟩ := List.eq_append_cons_of_mem hmem
      rw [pair_append hkey]
      exact .full hkey (decode_eq_iff.mp rfl) (decode_eq_iff.mp rfl)
    · rw [pair_of_notMem hmem]
      exact .bare hmem (decode_eq_iff.mp rfl)
  · intro h
    cases h with
    | full hequals hkey hvalue =>
      rw [pair_append hequals, decode_eq_iff.mpr hkey, decode_eq_iff.mpr hvalue]
    | bare hequals hkey => rw [pair_of_notMem hequals, decode_eq_iff.mpr hkey]

/-- The query puts the pairs one after the other, with ampersands between them. There may be more
ampersands than it takes. -/
def Spells (query : List Char) (members : List (Octets × Octets)) : Prop :=
  ∃ list, list ≠ [] ∧ (∀ piece ∈ list, 0x26 ∉ piece) ∧
    octetsOf query = List.intercalate [0x26] list ∧
    List.Forall₂ SpelledPair (list.filter (· ≠ [])) members

/-- Whatever the spelling of a query, its pairs are those that are meant. -/
theorem pairs_eq_iff {query : List Char} {members : List (Octets × Octets)} :
    pairs query = members ↔ Spells query members := by
  have hmap : ∀ list : List Octets, list.map pair = members ↔ List.Forall₂ SpelledPair list members := by
    intro list
    have hpair : SpelledPair = fun piece member => pair piece = member := by
      ext piece member
      exact pair_eq_iff.symm
    rw [hpair, ← List.forall₂_map_left_iff (R := Eq), List.forall₂_eq_eq_eq]
  constructor
  · intro h
    exact ⟨_, pieces_ne_nil _ _, notMem_of_mem_pieces, (intercalate_pieces _ _).symm, (hmap _).mp h⟩
  · rintro ⟨list, hne, hlist, hquery, hmembers⟩
    rw [pairs, hquery, pieces_intercalate hne hlist]
    exact (hmap _).mpr hmembers

/-! ## Numbers -/

/-- The values that a key comes with. -/
def values (key : String) (members : List (Octets × Octets)) : List Octets :=
  (members.filter (·.1 = octetsOf key.toList)).map (·.2)

/-- The values of a key are no number: there are two of them, or one that denotes none. -/
inductive Unusable (limit : Nat) (values : List Octets) : Prop
  | twice (h : 1 < values.length) : Unusable limit values
  | noNumber {value : Octets} (hvalue : value ∈ values) (h : ∀ n, ¬Denotes limit value n) :
      Unusable limit values

/-- The key comes once, with a number. -/
def Gives (limit : Nat) (key : String) (members : List (Octets × Octets)) (n : Int) : Prop :=
  ∃ value, values key members = [value] ∧ Denotes limit value n

section Numbers

variable {limit : Nat} {key : String} {members others : List (Octets × Octets)} {n : Int}

theorem values_append_cons {other value : Octets} (h : other ≠ octetsOf key.toList)
    (front rest : List (Octets × Octets)) :
    values key (front ++ (other, value) :: rest) = values key (front ++ rest) := by
  rw [values, values, List.filter_append, List.filter_append,
    List.filter_cons_of_neg (by simpa using h)]

theorem number?_of_values_nil (h : values key members = []) :
    number? limit key members = some none := by
  rw [values, List.map_eq_nil_iff] at h
  rw [number?, h]

theorem number?_of_values_singleton {value : Octets} (h : values key members = [value]) :
    number? limit key members = (readWithin? limit value).map some := by
  obtain ⟨member, hmember, rfl⟩ := List.map_eq_singleton_iff.mp h
  rw [number?, hmember]

theorem number?_of_lt_length (h : 1 < (values key members).length) :
    number? limit key members = none := by
  rw [values, List.length_map] at h
  rw [number?]
  split
  · next heq =>
    rw [heq] at h
    simp at h
  · next heq =>
    rw [heq] at h
    simp at h
  · rfl

/-- What a key is read as depends only on the values that it comes with. -/
theorem number?_congr (h : (values key others).Perm (values key members)) :
    number? limit key others = number? limit key members := by
  match hvalues : values key members with
  | [] =>
    rw [hvalues] at h
    rw [number?_of_values_nil hvalues, number?_of_values_nil (List.perm_nil.mp h)]
  | [value] =>
    rw [hvalues] at h
    rw [number?_of_values_singleton hvalues,
      number?_of_values_singleton (List.perm_singleton.mp h)]
  | _ :: _ :: _ =>
    have hlength : 1 < (values key members).length := by simp [hvalues]
    rw [number?_of_lt_length hlength, number?_of_lt_length (h.length_eq ▸ hlength)]

theorem number?_of_unusable (h : Unusable limit (values key members)) :
    number? limit key members = none := by
  cases h with
  | twice h => exact number?_of_lt_length h
  | noNumber hvalue h =>
    match hvalues : values key members with
    | [] => simp [hvalues] at hvalue
    | [value] =>
      rw [hvalues, List.mem_singleton] at hvalue
      subst hvalue
      rw [number?_of_values_singleton hvalues, Option.map_eq_none_iff,
        Option.eq_none_iff_forall_ne_some]
      exact fun n hn => h n (readWithin?_eq_some_iff.mp hn)
    | _ :: _ :: _ => exact number?_of_lt_length (by simp [hvalues])

theorem number?_of_gives (h : Gives limit key members n) :
    number? limit key members = some (some n) := by
  obtain ⟨value, hvalues, hn⟩ := h
  rw [number?_of_values_singleton hvalues, readWithin?_eq_some_iff.mpr hn]
  rfl

theorem Gives.not_unusable (h : Gives limit key members n) :
    ¬Unusable limit (values key members) := by
  intro hunusable
  have hsome := number?_of_gives h
  rw [number?_of_unusable hunusable] at hsome
  contradiction

/-- A key does not come, comes with a number, or cannot be used. -/
theorem values_cases (limit : Nat) (key : String) (members : List (Octets × Octets)) :
    values key members = [] ∨ (∃ n, Gives limit key members n) ∨
      Unusable limit (values key members) := by
  match hvalues : values key members with
  | [] => exact .inl rfl
  | [value] =>
    by_cases hn : ∃ n, Denotes limit value n
    · obtain ⟨n, hn⟩ := hn
      exact .inr (.inl ⟨n, value, hvalues, hn⟩)
    · exact .inr (.inr (.noNumber (List.mem_singleton_self value) (not_exists.mp hn)))
  | _ :: _ :: _ => exact .inr (.inr (.twice (by simp)))

end Numbers

end Daybook.Http.Form
