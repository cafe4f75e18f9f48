import Daybook.Net.Reader
import Daybook.Proofs.Text.Digits
import Mathlib.Data.Nat.Bitwise

/-! # Parts of addresses

Octets and groups are read from the texts that they are written as, up to the first character that cannot
belong to them, and so are whole IPv4 addresses and rows of groups. No group of hexadecimal digits is
taken for the start of an IPv4 address, because no point follows it. -/

namespace Daybook.Net

open Text

variable {text rest : List Char}

/-! ## IPv4 addresses -/

theorem takeOctet?_digitsOf (o : UInt8) (hrest : ∀ c ∈ rest.head?, ¬c.isDigit) :
    takeOctet? (digitsOf o.toNat ++ rest) = some (o, rest) := by
  have hlt := o.toNat_lt
  have hlength : (digitsOf o.toNat).length ≤ 3 := length_digitsOf_le (by decide) (by omega)
  have hzero : ¬((digitsOf o.toNat).head? = some '0' ∧ 1 < (digitsOf o.toNat).length) := by
    rintro ⟨hhead, hlong⟩
    rcases Nat.eq_zero_or_pos o.toNat with heq | hpos
    · rw [heq] at hlong
      exact absurd hlong (by decide)
    · exact head?_digitsOf_ne_zero hpos hhead
  have hdigits : ∀ c ∈ digitsOf o.toNat, c.isDigit := fun c hc => isDigit_of_mem_digitsOf hc
  have hbad : ¬(digitsOf o.toNat = [] ∨ 3 < (digitsOf o.toNat).length ∨
      (digitsOf o.toNat).head? = some '0' ∧ 1 < (digitsOf o.toNat).length ∨ 255 < o.toNat) := by
    rintro (hnil | hlong | hhead | hbig)
    · exact digitsOf_ne_nil _ hnil
    · omega
    · exact hzero hhead
    · omega
  simp only [takeOctet?, takeWhile_append_of_head hdigits hrest,
    dropWhile_append_of_head hdigits hrest, valueOf_digitsOf, if_neg hbad, UInt8.ofNat_toNat]

theorem takeIPv4?_text (ip : IPv4) (hrest : ∀ c ∈ rest.head?, ¬c.isDigit) :
    takeIPv4? (ip.text ++ rest) = some (ip, rest) := by
  have hpoint : ∀ rest : List Char, ∀ c ∈ ('.' :: rest).head?, ¬c.isDigit :=
    forall_head?_cons (by decide)
  simp only [IPv4.text, List.append_assoc, List.cons_append, takeIPv4?, takeOctet?_digitsOf _ (hpoint _),
    takeOctet?_digitsOf _ hrest, expect?_cons, Option.bind_eq_bind, Option.bind_some]
  rfl

/-- An IPv4 address needs a point after its first digits. -/
theorem takeIPv4?_eq_none (h : ∀ c ∈ (text.dropWhile Char.isDigit).head?, c ≠ '.') :
    takeIPv4? text = none := by
  have hpoint : expect? '.' (text.dropWhile Char.isDigit) = none := by
    rw [Option.eq_none_iff_forall_ne_some]
    intro rest hrest
    rw [expect?_eq_some_iff] at hrest
    exact h '.' (by rw [hrest]; rfl) rfl
  simp only [takeIPv4?, takeOctet?]
  split
  · rfl
  · simp only [Option.bind_eq_bind, Option.bind_some, hpoint, Option.bind_none]

/-! ## Groups -/

/-- A group in hexadecimal digits. -/
def hexText (group : UInt16) : List Char :=
  Nat.toDigits 16 group.toNat

theorem hexValue?_digitChar : ∀ n < 16, hexValue? (Nat.digitChar n) = some n := by
  decide

theorem isHex_of_mem_toDigits {n : Nat} : ∀ c ∈ Nat.toDigits 16 n, isHex c := by
  have hchar : ∀ n < 16, isHex (Nat.digitChar n) := by
    intro n hn
    rw [isHex, hexValue?_digitChar n hn]
    rfl
  induction n using Nat.strongRecOn with
  | ind n ih =>
    by_cases hn : n < 16
    · rw [Nat.toDigits_of_lt_base hn, List.forall_mem_singleton]
      exact hchar n hn
    · rw [Nat.toDigits_of_base_le (by decide) (Nat.not_lt.mp hn), List.forall_mem_append,
        List.forall_mem_singleton]
      exact ⟨ih (n / 16) (by omega), hchar (n % 16) (by omega)⟩

theorem foldl_hexValue (n : Nat) :
    (Nat.toDigits 16 n).foldl (fun value c => 16 * value + (hexValue? c).getD 0) 0 = n := by
  induction n using Nat.strongRecOn with
  | ind n ih =>
    by_cases hn : n < 16
    · rw [Nat.toDigits_of_lt_base hn, List.foldl_cons, List.foldl_nil, hexValue?_digitChar n hn,
        Option.getD_some, Nat.mul_zero, Nat.zero_add]
    · have hdigit := hexValue?_digitChar (n % 16) (by omega)
      rw [Nat.toDigits_of_base_le (by decide) (Nat.not_lt.mp hn), List.foldl_append,
        ih (n / 16) (by omega), List.foldl_cons, List.foldl_nil, hdigit, Option.getD_some]
      omega

theorem isHex_of_isDigit {c : Char} (h : c.isDigit) : isHex c := by
  rw [isHex, hexValue?, if_pos h]
  rfl

theorem takeGroup?_hexText (group : UInt16) (hrest : ∀ c ∈ rest.head?, ¬isHex c) :
    takeGroup? (hexText group ++ rest) = some (group, rest) := by
  have hhex : ∀ c ∈ hexText group, isHex c := isHex_of_mem_toDigits
  have hlength : (hexText group).length ≤ 4 :=
    (Nat.length_toDigits_le_iff (by decide) (by decide)).mpr group.toNat_lt
  have hbad : ¬(hexText group = [] ∨ 4 < (hexText group).length) := by
    rintro (hnil | hlong)
    · exact Nat.toDigits_ne_nil hnil
    · omega
  have hvalue : (hexText group).foldl (fun value c => 16 * value + (hexValue? c).getD 0) 0 =
      group.toNat := foldl_hexValue group.toNat
  simp only [takeGroup?, takeWhile_append_of_head hhex hrest, dropWhile_append_of_head hhex hrest,
    if_neg hbad, hvalue, UInt16.ofNat_toNat]

theorem takeGroup?_eq_none (h : ∀ c ∈ text.head?, ¬isHex c) : takeGroup? text = none := by
  have hnone : text.takeWhile isHex = [] := by
    cases text with
    | nil => rfl
    | cons c text => rw [List.takeWhile_cons_of_neg (h c rfl)]
  rw [takeGroup?, hnone]
  rfl

/-- A group that no point follows is not the start of an IPv4 address. -/
theorem takeIPv4?_hexText (group : UInt16) (hrest : ∀ c ∈ rest.head?, ¬isHex c ∧ c ≠ '.') :
    takeIPv4? (hexText group ++ rest) = none := by
  refine takeIPv4?_eq_none fun c hc => ?_
  have hpoint : isHex '.' = false := by decide
  rw [List.dropWhile_append] at hc
  split at hc
  · have hkeep : rest.dropWhile Char.isDigit = rest := by
      cases rest with
      | nil => rfl
      | cons d rest => exact List.dropWhile_cons_of_neg fun hd => (hrest d rfl).1 (isHex_of_isDigit hd)
    rw [hkeep] at hc
    exact (hrest c hc).2
  · next hne =>
    rw [List.isEmpty_iff] at hne
    obtain ⟨d, tail, hdrop⟩ := List.exists_cons_of_ne_nil hne
    have hmem : d ∈ hexText group := by
      refine (List.dropWhile_suffix Char.isDigit).subset ?_
      rw [hdrop]
      exact List.mem_cons_self
    rw [hdrop] at hc
    obtain rfl := Option.some.inj hc
    rintro rfl
    rw [isHex_of_mem_toDigits '.' hmem] at hpoint
    contradiction

/-! ## Rows of groups -/

/-- Groups with a colon before each. -/
def rowText (groups : List UInt16) : List Char :=
  groups.flatMap fun group => ':' :: hexText group

theorem joined_cons (group : UInt16) (groups : List UInt16) :
    IPv6.joined (group :: groups) = hexText group ++ rowText groups := by
  induction groups generalizing group with
  | nil => simp [IPv6.joined, hexText, rowText]
  | cons next groups ih =>
    have hjoined : IPv6.joined (group :: next :: groups) =
        hexText group ++ ':' :: IPv6.joined (next :: groups) := by
      simp [IPv6.joined, hexText, List.intercalate_cons_cons]
    rw [hjoined, ih]
    rfl

/-- No group and no IPv4 address follows, neither at once nor after a colon. -/
structure Stops (rest : List Char) : Prop where
  head : ∀ c ∈ rest.head?, ¬isHex c ∧ c ≠ '.'
  colon : ∀ tail, rest = ':' :: tail → ∀ c ∈ tail.head?, ¬isHex c ∧ c ≠ '.'

/-- The text does not go on with anything that belongs to an IPv6 address. -/
def Ends (rest : List Char) : Prop :=
  ∀ c ∈ rest.head?, ¬isHex c ∧ c ≠ '.' ∧ c ≠ ':'

theorem Ends.not_isDigit (h : Ends rest) : ∀ c ∈ rest.head?, ¬c.isDigit :=
  fun c hc hdigit => (h c hc).1 (isHex_of_isDigit hdigit)

theorem Ends.stops (h : Ends rest) : Stops rest where
  head c hc := ⟨(h c hc).1, (h c hc).2.1⟩
  colon := by
    rintro tail rfl
    exact absurd rfl (h ':' rfl).2.2

theorem takeIPv4?_eq_none_of_head (h : ∀ c ∈ text.head?, ¬isHex c ∧ c ≠ '.') :
    takeIPv4? text = none := by
  refine takeIPv4?_eq_none fun c hc => ?_
  cases text with
  | nil => cases hc
  | cons d text =>
    rw [List.dropWhile_cons_of_neg fun hd => (h d rfl).1 (isHex_of_isDigit hd)] at hc
    exact (h c hc).2

theorem takeGroups_stops (first : Bool) (limit : Nat) (h : Stops rest) :
    takeGroups first limit rest = ([], false, rest) := by
  have hskipped : ∀ tail, skipColon? first rest = some tail →
      ∀ c ∈ tail.head?, ¬isHex c ∧ c ≠ '.' := by
    intro tail hskip
    cases first with
    | true =>
      obtain rfl := Option.some.inj hskip
      exact h.head
    | false => exact h.colon tail (expect?_eq_some_iff.mp hskip)
  have hip : (skipColon? first rest).bind takeIPv4? = none := by
    rw [Option.bind_eq_none_iff]
    exact fun tail htail => takeIPv4?_eq_none_of_head (hskipped tail htail)
  have hgroup : (skipColon? first rest).bind takeGroup? = none := by
    rw [Option.bind_eq_none_iff]
    exact fun tail htail => takeGroup?_eq_none fun c hc => (hskipped tail htail c hc).1
  cases limit with
  | zero => rfl
  | succ limit => simp only [takeGroups, hip, hgroup, ite_self]

/-- A group that no point follows is taken as a group. -/
theorem takeGroups_hexText {first : Bool} {group : UInt16} (limit : Nat)
    (hskip : skipColon? first text = some (hexText group ++ rest))
    (hrest : ∀ c ∈ rest.head?, ¬isHex c ∧ c ≠ '.') :
    takeGroups first (limit + 1) text =
      (group :: (takeGroups false limit rest).1, (takeGroups false limit rest).2) := by
  have hip : (skipColon? first text).bind takeIPv4? = none := by
    rw [hskip]
    exact takeIPv4?_hexText group hrest
  have hgroup : (skipColon? first text).bind takeGroup? = some (group, rest) := by
    rw [hskip]
    exact takeGroup?_hexText group fun c hc => (hrest c hc).1
  simp only [takeGroups, hip, hgroup, ite_self]

theorem head_rowText_append (groups : List UInt16) (h : Stops rest) :
    ∀ c ∈ (rowText groups ++ rest).head?, ¬isHex c ∧ c ≠ '.' := by
  cases groups with
  | nil => exact h.head
  | cons group groups => exact forall_head?_cons (by decide) _

theorem takeGroups_rowText {groups : List UInt16} {limit : Nat} (hlimit : groups.length ≤ limit)
    (h : Stops rest) : takeGroups false limit (rowText groups ++ rest) = (groups, false, rest) := by
  induction groups generalizing limit with
  | nil => exact takeGroups_stops false limit h
  | cons group groups ih =>
    obtain ⟨limit, rfl⟩ : ∃ n, limit = n + 1 := ⟨limit - 1, by simp at hlimit; omega⟩
    have hskip : skipColon? false (rowText (group :: groups) ++ rest) =
        some (hexText group ++ (rowText groups ++ rest)) := by
      simp [skipColon?, rowText]
    rw [takeGroups_hexText limit hskip (head_rowText_append groups h),
      ih (Nat.le_of_succ_le_succ hlimit)]

theorem takeGroups_joined {groups : List UInt16} {limit : Nat} (hlimit : groups.length ≤ limit)
    (h : Stops rest) :
    takeGroups true limit (IPv6.joined groups ++ rest) = (groups, false, rest) := by
  cases groups with
  | nil => exact takeGroups_stops true limit h
  | cons group groups =>
    obtain ⟨limit, rfl⟩ : ∃ n, limit = n + 1 := ⟨limit - 1, by simp at hlimit; omega⟩
    have hskip : skipColon? true (IPv6.joined (group :: groups) ++ rest) =
        some (hexText group ++ (rowText groups ++ rest)) := by
      rw [joined_cons, List.append_assoc]
      rfl
    rw [takeGroups_hexText limit hskip (head_rowText_append groups h),
      takeGroups_rowText (Nat.le_of_succ_le_succ hlimit) h]

end Daybook.Net
