import Daybook.Http.Form
import Daybook.Proofs.Text.Whole

/-! # Queries that are written and read

A query of plain words and numbers has the pairs that it was written from, and a number in it has the
value that was written. -/

namespace Daybook

namespace Http.Form

/-- Characters of one byte each that have no meaning in a form. -/
def IsWord (text : List Char) : Prop :=
  ∀ c ∈ text, c.toNat < 0x80 ∧ c ≠ '%' ∧ c ≠ '+' ∧ c ≠ '&' ∧ c ≠ '='

theorem isWord_signed (n : Int) : IsWord (Text.signed n) :=
  Text.forall_mem_signed (by decide) (by decide) n

def octet (c : Char) : UInt8 :=
  UInt8.ofNat c.toNat

theorem octetsOf_append (front rest : List Char) :
    octetsOf (front ++ rest) = octetsOf front ++ octetsOf rest :=
  List.flatMap_append

/-- Characters of one byte each are their bytes. -/
theorem octetsOf_of_lt {text : List Char} (h : ∀ c ∈ text, c.toNat < 0x80) :
    octetsOf text = text.map octet := by
  induction text with
  | nil => rfl
  | cons c text ih =>
    have hone : String.utf8EncodeChar c = [octet c] := by
      have hle : c.val.toNat ≤ 0x7F := Nat.le_of_lt_succ (h c List.mem_cons_self)
      simp only [String.utf8EncodeChar, if_pos hle]
      rfl
    rw [octetsOf, List.flatMap_cons, hone, ← octetsOf, ih fun d hd => h d (List.mem_cons_of_mem _ hd)]
    rfl

theorem octetsOf_of_isWord {text : List Char} (h : IsWord text) :
    octetsOf text = text.map octet :=
  octetsOf_of_lt fun c hc => (h c hc).1

theorem octet_ne {c d : Char} (hc : c.toNat < 0x80) (hd : d.toNat < 0x80) (h : c ≠ d) :
    octet c ≠ octet d := by
  intro heq
  have hnat := congrArg UInt8.toNat heq
  simp only [octet, UInt8.toNat_ofNat'] at hnat
  refine h (Char.toNat_inj.mp ?_)
  omega

theorem ofNat_octet {c : Char} (hc : c.toNat < 0x80) : Char.ofNat (octet c).toNat = c := by
  have hnat : (octet c).toNat = c.toNat := by
    simp only [octet, UInt8.toNat_ofNat']
    omega
  rw [hnat, Char.ofNat_toNat]

theorem octet_ofNat_toNat (o : UInt8) : octet (Char.ofNat o.toNat) = o := by
  have hvalid : o.toNat.isValidChar := .inl (Nat.lt_trans o.toNat_lt (by decide))
  have hnat : (Char.ofNat o.toNat).toNat = o.toNat := by
    rw [Char.ofNat, dif_pos hvalid]
    rfl
  rw [octet, hnat, UInt8.ofNat_toNat]

/-- The bytes are those of a number below the limit. -/
def Denotes (limit : Nat) (value : Octets) (n : Int) : Prop :=
  Within limit n ∧ ∃ text, value = octetsOf text ∧ Text.Denotes text n

theorem readWithin?_eq_some_iff {limit : Nat} {value : Octets} {n : Int} :
    readWithin? limit value = some n ↔ Denotes limit value n := by
  rw [readWithin?, Text.readWithin?_eq_some_iff]
  constructor
  · rintro ⟨hdenotes, hwithin⟩
    refine ⟨hwithin, _, ?_, hdenotes⟩
    rw [octetsOf_of_lt hdenotes.toNat_lt, List.map_map]
    exact ((List.map_congr_left fun o _ => octet_ofNat_toNat o).trans (List.map_id _)).symm
  · rintro ⟨hwithin, text, rfl, hdenotes⟩
    have hback : (octetsOf text).map (fun o => Char.ofNat o.toNat) = text := by
      rw [octetsOf_of_lt hdenotes.toNat_lt, List.map_map]
      exact (List.map_congr_left fun c hc => ofNat_octet (hdenotes.toNat_lt c hc)).trans
        (List.map_id _)
    rw [hback]
    exact ⟨hdenotes, hwithin⟩

theorem readWithin?_octetsOf {limit : Nat} {n : Int} (h : Within limit n) :
    readWithin? limit (octetsOf (Text.signed n)) = some n :=
  readWithin?_eq_some_iff.mpr ⟨h, _, rfl, Text.denotes_signed n⟩

/-! ## Pieces and pairs -/

theorem pieces_eq_splitOn (separator : UInt8) (octets : Octets) :
    pieces separator octets = octets.splitOn separator := by
  rw [List.splitOn_eq_splitOnP]
  induction octets with
  | nil => rfl
  | cons octet octets ih =>
    rw [pieces, ih, List.splitOnP_cons_eq_if_modifyHead]
    simp only [beq_iff_eq]
    cases hsplit : List.splitOnP (· == separator) octets with
    | nil => exact absurd hsplit (List.splitOnP_ne_nil _ _)
    | cons piece others => rfl

section Pieces

variable {separator : UInt8}

theorem pieces_ne_nil (separator : UInt8) (octets : Octets) : pieces separator octets ≠ [] :=
  pieces_eq_splitOn separator octets ▸ List.splitOn_ne_nil separator octets

theorem intercalate_pieces (separator : UInt8) (octets : Octets) :
    List.intercalate [separator] (pieces separator octets) = octets := by
  rw [pieces_eq_splitOn]
  exact List.intercalate_splitOn separator

theorem pieces_intercalate {list : List Octets} (hne : list ≠ [])
    (h : ∀ piece ∈ list, separator ∉ piece) :
    pieces separator (List.intercalate [separator] list) = list := by
  rw [pieces_eq_splitOn]
  exact List.splitOn_intercalate separator h hne

theorem notMem_of_mem_pieces {octets : Octets} :
    ∀ piece ∈ pieces separator octets, separator ∉ piece := by
  induction octets with
  | nil => simp [pieces]
  | cons octet octets ih =>
    rw [pieces]
    split
    · exact List.forall_mem_cons.mpr ⟨List.not_mem_nil, ih⟩
    · next hne =>
      split
      · simp [Ne.symm hne]
      · next piece others heq =>
        rw [heq, List.forall_mem_cons] at ih
        refine List.forall_mem_cons.mpr ⟨?_, ih.2⟩
        rw [List.mem_cons, not_or]
        exact ⟨Ne.symm hne, ih.1⟩

end Pieces

theorem octetsOf_intercalate (texts : List (List Char)) :
    octetsOf (List.intercalate ['&'] texts) = List.intercalate [0x26] (texts.map octetsOf) := by
  induction texts with
  | nil => rfl
  | cons text texts ih =>
    cases texts with
    | nil => simp
    | cons next texts =>
      have hampersand : octetsOf ['&'] = [0x26] := rfl
      rw [List.map_cons, List.map_cons, List.intercalate_cons_cons, List.intercalate_cons_cons,
        octetsOf_append, octetsOf_append, hampersand, ih, List.map_cons]

theorem decode_cons {o : UInt8} (hpercent : o ≠ 0x25) (hplus : o ≠ 0x2B) (octets : Octets) :
    decode (o :: octets) = o :: decode octets := by
  rw [decode.eq_def]
  split
  · next heq => exact absurd heq (List.cons_ne_nil _ _)
  · next heq => exact absurd (List.cons.inj heq).1 hpercent
  · next heq => exact absurd (List.cons.inj heq).1 hplus
  · next heq =>
    obtain ⟨rfl, rfl⟩ := List.cons.inj heq
    rfl

theorem decode_of_plain {octets : Octets} (h : ∀ o ∈ octets, o ≠ 0x25 ∧ o ≠ 0x2B) :
    decode octets = octets := by
  induction octets with
  | nil => rfl
  | cons o octets ih =>
    obtain ⟨hpercent, hplus⟩ := h o List.mem_cons_self
    rw [decode_cons hpercent hplus, ih fun o ho => h o (List.mem_cons_of_mem _ ho)]

/-- No byte of a word has a meaning in a form. -/
theorem ne_of_mem_octetsOf {text : List Char} (h : IsWord text) {o : UInt8}
    (ho : o ∈ octetsOf text) : o ≠ 0x25 ∧ o ≠ 0x2B ∧ o ≠ 0x26 ∧ o ≠ 0x3D := by
  rw [octetsOf_of_isWord h] at ho
  obtain ⟨c, hc, rfl⟩ := List.mem_map.mp ho
  obtain ⟨hascii, hpercent, hplus, hampersand, hequals⟩ := h c hc
  exact ⟨octet_ne hascii (d := '%') (by decide) hpercent,
    octet_ne hascii (d := '+') (by decide) hplus,
    octet_ne hascii (d := '&') (by decide) hampersand,
    octet_ne hascii (d := '=') (by decide) hequals⟩

/-- A key and a value with an equals sign between them. -/
def spell (member : List Char × List Char) : List Char :=
  member.1 ++ '=' :: member.2

theorem octetsOf_spell (member : List Char × List Char) :
    octetsOf (spell member) = octetsOf member.1 ++ 0x3D :: octetsOf member.2 :=
  octetsOf_append member.1 ('=' :: member.2)

theorem notMem_octetsOf_spell {member : List Char × List Char} (hk : IsWord member.1)
    (hv : IsWord member.2) : 0x26 ∉ octetsOf (spell member) := by
  rw [octetsOf_spell]
  intro h
  rcases List.mem_append.mp h with h | h
  · exact (ne_of_mem_octetsOf hk h).2.2.1 rfl
  · rcases List.mem_cons.mp h with h | h
    · exact absurd h (by decide)
    · exact (ne_of_mem_octetsOf hv h).2.2.1 rfl

/-- A piece is cut at its first equals sign. -/
theorem pair_append {key : Octets} (h : 0x3D ∉ key) (value : Octets) :
    pair (key ++ 0x3D :: value) = (decode key, decode value) := by
  have hkey : ∀ o ∈ key, decide (o ≠ 0x3D) := fun o ho =>
    decide_eq_true fun heq => h (heq ▸ ho)
  have hstop : ∀ o ∈ (0x3D :: value).head?, ¬decide (o ≠ 0x3D) := by simp
  rw [pair, Text.takeWhile_append_of_head hkey hstop, Text.dropWhile_append_of_head hkey hstop,
    List.drop_succ_cons, List.drop_zero]

theorem pair_spell {member : List Char × List Char} (hk : IsWord member.1)
    (hv : IsWord member.2) :
    pair (octetsOf (spell member)) = (octetsOf member.1, octetsOf member.2) := by
  have hkey : 0x3D ∉ octetsOf member.1 := fun h => (ne_of_mem_octetsOf hk h).2.2.2 rfl
  have plain : ∀ {text}, IsWord text → decode (octetsOf text) = octetsOf text := fun h =>
    decode_of_plain fun o ho => ⟨(ne_of_mem_octetsOf h ho).1, (ne_of_mem_octetsOf h ho).2.1⟩
  rw [octetsOf_spell, pair_append hkey, plain hk, plain hv]

/-- The pairs of a query are the words that it was made of. -/
theorem pairs_intercalate {members : List (List Char × List Char)} (hne : members ≠ [])
    (h : ∀ m ∈ members, IsWord m.1 ∧ IsWord m.2) :
    pairs (List.intercalate ['&'] (members.map spell)) =
      members.map fun m => (octetsOf m.1, octetsOf m.2) := by
  have hpieces : ∀ piece ∈ (members.map spell).map octetsOf, 0x26 ∉ piece ∧ decide (piece ≠ []) := by
    rw [List.map_map, List.forall_mem_map]
    intro m hm
    exact ⟨notMem_octetsOf_spell (h m hm).1 (h m hm).2, by simp [octetsOf_spell]⟩
  rw [pairs, octetsOf_intercalate, pieces_intercalate (by simpa using hne) fun p hp => (hpieces p hp).1,
    List.filter_eq_self.mpr fun p hp => (hpieces p hp).2, List.map_map, List.map_map]
  exact List.map_congr_left fun m hm => pair_spell (h m hm).1 (h m hm).2

/-- The query that asks for a range. -/
def boundsText (lower upper : Int) : List Char :=
  List.intercalate ['&'] ([("from".toList, Text.signed lower), ("to".toList, Text.signed upper)].map
    spell)

/-- The query that asks for days at an offset. -/
def offsetText (minutes : Int) : List Char :=
  List.intercalate ['&'] ([("tz_offset_minutes".toList, Text.signed minutes)].map spell)

/-- A number is found if its key comes just once. -/
theorem number?_of_unique {limit : Nat} {key : String} {value : Octets} {n : Int}
    (front rest : List (Octets × Octets)) (hfront : ∀ p ∈ front, p.1 ≠ octetsOf key.toList)
    (hrest : ∀ p ∈ rest, p.1 ≠ octetsOf key.toList) (h : readWithin? limit value = some n) :
    number? limit key (front ++ (octetsOf key.toList, value) :: rest) = some (some n) := by
  have hf : front.filter (·.1 = octetsOf key.toList) = [] := by simpa using hfront
  have hr : rest.filter (·.1 = octetsOf key.toList) = [] := by simpa using hrest
  simp [number?, hf, hr, h]

theorem number?_boundsText {lower upper : Int} (hl : Within limit64 lower)
    (hu : Within limit64 upper) :
    number? limit64 "from" (pairs (boundsText lower upper)) = some (some lower) ∧
      number? limit64 "to" (pairs (boundsText lower upper)) = some (some upper) := by
  have hfrom : IsWord "from".toList := by simp [IsWord]
  have hto : IsWord "to".toList := by simp [IsWord]
  have hne : octetsOf "from".toList ≠ octetsOf "to".toList := by decide
  have hwords : ∀ m ∈ [("from".toList, Text.signed lower), ("to".toList, Text.signed upper)],
      IsWord m.1 ∧ IsWord m.2 := by
    rw [List.forall_mem_cons, List.forall_mem_singleton]
    exact ⟨⟨hfrom, isWord_signed lower⟩, hto, isWord_signed upper⟩
  rw [boundsText, pairs_intercalate (List.cons_ne_nil _ _) hwords]
  constructor
  · exact number?_of_unique [] [_] (List.forall_mem_nil _)
      (List.forall_mem_singleton.mpr hne.symm) (readWithin?_octetsOf hl)
  · exact number?_of_unique [_] [] (List.forall_mem_singleton.mpr hne) (List.forall_mem_nil _)
      (readWithin?_octetsOf hu)

theorem number?_offsetText {minutes : Int} (h : Within limit32 minutes) :
    number? limit32 "tz_offset_minutes" (pairs (offsetText minutes)) = some (some minutes) := by
  have hkey : IsWord "tz_offset_minutes".toList := by simp [IsWord]
  have hwords : ∀ m ∈ [("tz_offset_minutes".toList, Text.signed minutes)],
      IsWord m.1 ∧ IsWord m.2 :=
    List.forall_mem_singleton.mpr ⟨hkey, isWord_signed minutes⟩
  rw [offsetText, pairs_intercalate (List.cons_ne_nil _ _) hwords]
  exact number?_of_unique [] [] (List.forall_mem_nil _) (List.forall_mem_nil _)
    (readWithin?_octetsOf h)

end Http.Form

end Daybook
