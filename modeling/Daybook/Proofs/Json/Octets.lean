import Daybook.Json.Octets
import Daybook.Proofs.Json.Grammar

/-! # Bytes of JSON texts

The bytes of a text have its characters. A string with a byte that is no part of a character can be
skipped, but no text comes of it, so that all of a value is read only of UTF-8. -/

namespace Daybook.Json

/-! ## Texts -/

theorem charactersFrom_append (front back : ByteArray) (start : Nat) :
    charactersFrom (front ++ back) (front.size + start) = charactersFrom back start := by
  have hdecode (i : Nat) :
      (front ++ back).utf8DecodeChar? (front.size + i) = back.utf8DecodeChar? i := by
    rw [ByteArray.utf8DecodeChar?_eq_utf8DecodeChar?_extract,
      ByteArray.utf8DecodeChar?_eq_utf8DecodeChar?_extract (b := back), ByteArray.size_append,
      ByteArray.extract_append_size_add]
  fun_induction charactersFrom back start with
  | case1 start hlt c hc ih =>
    rw [charactersFrom, ByteArray.size_append, if_pos (Nat.add_lt_add_left hlt _), hdecode, hc]
    simp only [Nat.add_assoc, ih]
  | case2 start hlt hnone ih =>
    rw [charactersFrom, ByteArray.size_append, if_pos (Nat.add_lt_add_left hlt _), hdecode, hnone]
    simp only [Nat.add_assoc, ih]
  | case3 start hle =>
    rw [charactersFrom, ByteArray.size_append, if_neg (by omega)]

theorem charactersOf_utf8Encode_append (text : List Char) (octets : ByteArray) :
    charactersOf (text.utf8Encode ++ octets) = text ++ charactersOf octets := by
  induction text with
  | nil => simp [charactersOf]
  | cons c text ih =>
    have hsplit : (c :: text).utf8Encode ++ octets =
        [c].utf8Encode ++ (text.utf8Encode ++ octets) := by
      rw [← ByteArray.append_assoc, ← List.utf8Encode_append, List.singleton_append]
    have hsize : [c].utf8Encode.size = c.utf8Size := by simp [List.utf8Encode_singleton]
    have hlt : 0 < ([c].utf8Encode ++ (text.utf8Encode ++ octets)).size := by
      rw [ByteArray.size_append, hsize]
      exact Nat.add_pos_left c.utf8Size_pos _
    have hnext : 0 + c.utf8Size = [c].utf8Encode.size + 0 := by rw [hsize, Nat.add_comm]
    rw [hsplit, charactersOf, charactersFrom, if_pos hlt,
      List.utf8DecodeChar?_utf8Encode_singleton_append]
    simp only [hnext, charactersFrom_append]
    exact congrArg (c :: ·) ih

/-- The characters of a text stand before those of the bytes after it. -/
theorem charactersOf_append (text : String) (octets : ByteArray) :
    charactersOf (text.toUTF8 ++ octets) = text.toList ++ charactersOf octets := by
  rw [← charactersOf_utf8Encode_append, String.utf8Encode_toList]
  rfl

theorem charactersOf_toUTF8 (text : String) : charactersOf text.toUTF8 = text.toList := by
  have hnothing : charactersOf .empty = [] := by simp [charactersOf, charactersFrom]
  have h := charactersOf_append text .empty
  rw [ByteArray.append_empty, hnothing, List.append_nil] at h
  exact h

/-! ## Stray bytes -/

section Infix

variable {front text : List Char} {c : Char}

theorem stray_infix_cons (hne : c ≠ 'x') : stray <:+: c :: text ↔ stray <:+: text := by
  rw [List.infix_cons_iff, stray, List.cons_prefix_cons]
  simp [hne.symm]

theorem stray_infix_append (h : 'x' ∉ front) : stray <:+: front ++ text ↔ stray <:+: text := by
  induction front with
  | nil => rfl
  | cons c front ih =>
    rw [List.mem_cons, not_or] at h
    rw [List.cons_append, stray_infix_cons (Ne.symm h.1), ih h.2]

theorem not_stray_of_notMem (h : 'x' ∉ text) : ¬stray <:+: text :=
  fun hstray => h (hstray.subset List.mem_cons_self)

/-- A character that is not in a stray byte keeps what is before it from what is after it. -/
theorem stray_infix_append_cons (hc : c ∉ stray) :
    stray <:+: front ++ c :: text ↔ stray <:+: front ∨ stray <:+: text := by
  constructor
  · intro h
    induction front with
    | nil =>
      have hne : c ≠ 'x' := by
        rintro rfl
        exact hc List.mem_cons_self
      exact .inr ((stray_infix_cons hne).mp h)
    | cons d front ih =>
      rw [List.cons_append, List.infix_cons_iff] at h
      rcases h with hhead | hlater
      · refine .inl (List.IsPrefix.isInfix ?_)
        have hfront : d :: front <+: d :: (front ++ c :: text) := ⟨c :: text, rfl⟩
        rcases List.prefix_or_prefix_of_prefix hhead hfront with h | ⟨rest, hrest⟩
        · exact h
        · rw [← hrest] at hhead hc ⊢
          have htail : rest <+: c :: text := (List.prefix_append_right_inj (d :: front)).mp hhead
          cases rest with
          | nil => exact ⟨[], by simp⟩
          | cons first rest =>
            obtain rfl := (List.cons_prefix_cons.mp htail).1
            exact absurd (List.mem_append_right _ List.mem_cons_self) hc
      · exact (ih hlater).imp_left List.infix_cons
  · rintro (h | h)
    · exact h.trans (List.prefix_append _ _).isInfix
    · exact h.trans ((List.suffix_cons c text).trans (List.suffix_append _ _)).isInfix

end Infix

namespace Numeral

theorem notMem_of_isDigit {digits : List Char} (h : ∀ c ∈ digits, c.isDigit) : 'x' ∉ digits :=
  fun hmem => absurd (h 'x' hmem) (by decide)

theorem IsWhole.notMem {whole : List Char} (h : IsWhole whole) : 'x' ∉ whole := by
  cases h with
  | zero => decide
  | digits _ hdigits => exact notMem_of_isDigit hdigits

theorem SpellsFraction.notMem {fraction digits : List Char} (h : SpellsFraction fraction digits) :
    'x' ∉ fraction := by
  cases h with
  | none => decide
  | point _ hdigits => simp [notMem_of_isDigit hdigits]

theorem SpellsExponent.notMem {exponent : List Char} {power : Option Int}
    (h : SpellsExponent exponent power) : 'x' ∉ exponent := by
  cases h with
  | none => decide
  | positive hmark hsign _ hdigits =>
    rcases hmark with rfl | rfl <;> rcases hsign with rfl | rfl <;> simp [notMem_of_isDigit hdigits]
  | negative hmark _ hdigits =>
    rcases hmark with rfl | rfl <;> simp [notMem_of_isDigit hdigits]

theorem Spells.notMem {text : List Char} {n : Numeral} (h : Spells text n) : 'x' ∉ text := by
  cases h with
  | unsigned hwhole hfraction hexponent =>
    simp [hwhole.notMem, hfraction.notMem, hexponent.notMem]
  | negative hwhole hfraction hexponent =>
    simp [hwhole.notMem, hfraction.notMem, hexponent.notMem]

end Numeral

namespace Quoted

variable {text : List Char} {pieces : List Piece}

/-- The pieces of a stray byte. -/
def strayPieces : List Piece :=
  [.char 'x', .half 0xDC00]

theorem join?_trailing (rest : List Piece) : join? (.half 0xDC00 :: rest) = none := by
  cases rest with
  | nil => rfl
  | cons piece rest =>
    cases piece with
    | char => rfl
    | half => simp [join?, isLeading]

/-- The letter keeps the half from being the second one of a pair. -/
theorem join?_append_strayPieces (front back : List Piece) :
    join? (front ++ (strayPieces ++ back)) = none := by
  fun_induction join? front with
  | case1 => simp [strayPieces, join?, join?_trailing]
  | case2 c front ih => simp [join?, ih]
  | case3 hi lo front hpair ih => simp [join?, ih]
  | case4 hi lo front hpair => simp [join?, hpair]
  | case5 hi front hne =>
    cases front with
    | nil => simp [strayPieces, join?]
    | cons piece front =>
      cases piece with
      | char => simp [join?]
      | half lo => exact absurd rfl (hne lo front)

theorem ne_x_of_short? {e c : Char} (h : short? e = some c) : e ≠ 'x' := by
  rintro rfl
  contradiction

/-- No digit of an escape is the letter of a stray byte. -/
theorem notMem_of_piece? {a b c d : Char} {piece : Piece} (h : piece? a b c d = some piece) :
    'x' ∉ [a, b, c, d] := by
  have hx : hexDigit? 'x' = none := by decide
  intro hmem
  simp only [List.mem_cons, List.not_mem_nil, or_false] at hmem
  simp only [piece?, Option.bind_eq_bind, Option.bind_eq_some_iff] at h
  obtain ⟨_, ha, _, hb, _, hc, _, hd, -⟩ := h
  rcases hmem with rfl | rfl | rfl | rfl
  · exact absurd (hx.symm.trans ha) (Option.some_ne_none _).symm
  · exact absurd (hx.symm.trans hb) (Option.some_ne_none _).symm
  · exact absurd (hx.symm.trans hc) (Option.some_ne_none _).symm
  · exact absurd (hx.symm.trans hd) (Option.some_ne_none _).symm

/-- A string that spells a stray byte has its pieces. -/
theorem Spells.infix_strayPieces (h : Spells text pieces) (hstray : stray <:+: text) :
    strayPieces <:+: pieces := by
  induction h with
  | nil =>
    rw [List.infix_nil] at hstray
    contradiction
  | plain hquote hslash hcontrol h ih =>
    rw [List.infix_cons_iff, stray, List.cons_prefix_cons] at hstray
    rcases hstray with ⟨rfl, rest, rfl⟩ | hstray
    · cases h with
      | plain _ hslash => exact absurd rfl hslash
      | short he => exact absurd rfl (ne_u_of_short? he)
      | unicode hpiece h =>
        obtain rfl := Option.some.inj hpiece
        exact ⟨[], _, rfl⟩
    · exact List.infix_cons (ih hstray)
  | short he h ih =>
    rw [stray_infix_cons (by decide), stray_infix_cons (ne_x_of_short? he)] at hstray
    exact List.infix_cons (ih hstray)
  | unicode hpiece h ih =>
    have hne := notMem_of_piece? hpiece
    simp only [List.mem_cons, List.not_mem_nil, or_false, not_or] at hne
    obtain ⟨ha, hb, hc, hd⟩ := hne
    rw [stray_infix_cons (by decide), stray_infix_cons (by decide), stray_infix_cons (Ne.symm ha),
      stray_infix_cons (Ne.symm hb), stray_infix_cons (Ne.symm hc),
      stray_infix_cons (Ne.symm hd)] at hstray
    exact List.infix_cons (ih hstray)

/-- No text comes of a string that spells a stray byte. -/
theorem join?_of_stray (h : Spells text pieces) (hstray : stray <:+: text) :
    join? pieces = none := by
  obtain ⟨front, back, rfl⟩ := h.infix_strayPieces hstray
  rw [List.append_assoc]
  exact join?_append_strayPieces front back

end Quoted

namespace Reading

theorem Blank.notMem {text : List Char} (h : Blank text) : 'x' ∉ text :=
  fun hmem => absurd (h 'x' hmem) (by decide)

theorem stray_infix_append_blank {text after : List Char} (h : Blank after) :
    stray <:+: text ++ after ↔ stray <:+: text := by
  cases after with
  | nil => rw [List.append_nil]
  | cons c after =>
    have hspaces : ∀ c ∈ stray, ¬isSpace c := by simp [stray, isSpace]
    have hc : c ∉ stray := fun hmem => hspaces c hmem (h c List.mem_cons_self)
    have hafter : Blank after := fun d hd => h d (List.mem_cons_of_mem _ hd)
    rw [stray_infix_append_cons hc, or_iff_left (not_stray_of_notMem hafter.notMem)]

theorem not_stray_of_isSome {text : List Char} {pieces : List Quoted.Piece}
    (h : Quoted.Spells text pieces)
    (hsome : ((Quoted.join? pieces).map String.ofList).isSome) : ¬stray <:+: text := by
  intro hstray
  rw [Quoted.join?_of_stray h hstray] at hsome
  contradiction

mutual

/-- A value of which everything can be read spells no stray byte. -/
theorem Spells.not_stray {room : Nat} {text : List Char} {value : Reading} :
    Spells text value → value.isSound room → ¬stray <:+: text
  | .null, _ | .true, _ | .false, _ => not_stray_of_notMem (by decide)
  | .number h, _ => not_stray_of_notMem h.notMem
  | .string h, hsound => by
    rw [stray_infix_cons (by decide), stray_infix_append_cons (by decide), not_or]
    exact ⟨not_stray_of_isSome h hsound, not_stray_of_notMem (by decide)⟩
  | .emptyArray h, _ | .emptyObject h, _ => not_stray_of_notMem (by simp [h.notMem])
  | .array h, hsound => by
    simp only [isSound, Bool.and_eq_true] at hsound
    rw [stray_infix_cons (by decide), stray_infix_append_cons (by decide), not_or]
    exact ⟨h.not_stray hsound.2, not_stray_of_notMem (by decide)⟩
  | .object h, hsound => by
    simp only [isSound, Bool.and_eq_true] at hsound
    rw [stray_infix_cons (by decide), stray_infix_append_cons (by decide), not_or]
    exact ⟨h.not_stray hsound.2, not_stray_of_notMem (by decide)⟩

theorem Holds.not_stray {room : Nat} {text : List Char} {value : Reading} :
    Holds text value → value.isSound room → ¬stray <:+: text
  | .intro hbefore h hafter, hsound => by
    rw [stray_infix_append hbefore.notMem, stray_infix_append_blank hafter]
    exact h.not_stray hsound

theorem SpellsItems.not_stray {room : Nat} {text : List Char} {items : List Reading} :
    SpellsItems text items → areSound room items → ¬stray <:+: text
  | .last h, hsound => by
    simp only [areSound, Bool.and_eq_true] at hsound
    exact h.not_stray hsound.1
  | .cons h hrest, hsound => by
    rw [areSound, Bool.and_eq_true] at hsound
    rw [stray_infix_append_cons (by decide), not_or]
    exact ⟨h.not_stray hsound.1, hrest.not_stray hsound.2⟩

theorem SpellsMembers.not_stray {room : Nat} {text : List Char}
    {members : List (Option String × Reading)} :
    SpellsMembers text members → haveSound room members → ¬stray <:+: text
  | .last hbefore hkey hafter h, hsound => by
    simp only [haveSound, Bool.and_eq_true] at hsound
    rw [stray_infix_append hbefore.notMem, stray_infix_cons (by decide),
      stray_infix_append_cons (by decide), stray_infix_append hafter.notMem,
      stray_infix_cons (by decide), not_or]
    exact ⟨not_stray_of_isSome hkey hsound.1.1, h.not_stray hsound.1.2⟩
  | .cons hbefore hkey hafter h hrest, hsound => by
    simp only [haveSound, Bool.and_eq_true] at hsound
    rw [stray_infix_append hbefore.notMem, stray_infix_cons (by decide),
      stray_infix_append_cons (by decide), stray_infix_append hafter.notMem,
      stray_infix_cons (by decide), stray_infix_append_cons (by decide), not_or, not_or]
    exact ⟨not_stray_of_isSome hkey hsound.1.1, h.not_stray hsound.1.2,
      hrest.not_stray hsound.2⟩

end

end Reading

/-! ## UTF-8 -/

theorem utf8Encode_charactersFrom {octets : ByteArray} {start : Nat}
    (h : ¬stray <:+: charactersFrom octets start) :
    octets.extract start octets.size = (charactersFrom octets start).utf8Encode := by
  fun_induction charactersFrom octets start with
  | case1 start hlt c hc ih =>
    have hrest := ih fun hstray => h (List.infix_cons hstray)
    have hle := ByteArray.le_size_of_utf8DecodeChar?_eq_some hc
    rw [ByteArray.utf8DecodeChar?_eq_utf8DecodeChar?_extract] at hc
    have hfirst := String.toByteArray_utf8EncodeChar_of_utf8DecodeChar?_eq_some hc
    rw [ByteArray.extract_eq_extract_append_extract (start + c.utf8Size) (Nat.le_add_right _ _) hle,
      hrest, ← List.singleton_append, List.utf8Encode_append, List.utf8Encode_singleton, hfirst,
      ByteArray.extract_extract, Nat.add_zero, Nat.min_eq_left hle]
  | case2 start hlt hnone ih => exact absurd (List.prefix_append _ _).isInfix h
  | case3 start hle =>
    rw [List.utf8Encode_nil, ByteArray.extract_eq_empty_iff]
    omega

/-- Bytes that hold a value of which everything can be read are those of a text. -/
theorem exists_text_of_isSound {octets : ByteArray} {room : Nat} {value : Reading}
    (h : Reading.Holds (charactersOf octets) value) (hsound : value.isSound room) :
    ∃ text : String, octets = text.toUTF8 := by
  have hencode := utf8Encode_charactersFrom (h.not_stray hsound)
  rw [ByteArray.extract_zero_size] at hencode
  exact ⟨String.ofList (charactersOf octets), hencode⟩

end Daybook.Json
