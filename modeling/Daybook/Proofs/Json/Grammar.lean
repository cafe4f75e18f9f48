import Daybook.Json.Reading
import Daybook.Proofs.Json.Scalars
import Mathlib.Data.List.TakeWhile

/-! # The grammar of JSON texts

Which texts spell which values. A reader gets through a text as a whole just if it is in the grammar,
and then what it sees is what the text spells. Limits on nesting and numbers are no matter of the
grammar. -/

namespace Daybook.Json

namespace Reading

/-! ## Blanks -/

/-- Nothing but white space. -/
def Blank (text : List Char) : Prop :=
  ∀ c ∈ text, isSpace c

section Blanks

variable {front rest : List Char} {c : Char}

theorem blank_nil : Blank [] :=
  List.forall_mem_nil _

theorem skipSpace_append (h : Blank front) (rest : List Char) :
    skipSpace (front ++ rest) = skipSpace rest := by
  induction front with
  | nil => rfl
  | cons c front ih =>
    have hc : isSpace c := h c List.mem_cons_self
    rw [List.cons_append, skipSpace, List.dropWhile_cons, if_pos hc]
    exact ih fun d hd => h d (List.mem_cons_of_mem _ hd)

theorem skipSpace_cons (h : ¬isSpace c) (rest : List Char) : skipSpace (c :: rest) = c :: rest := by
  rw [skipSpace, List.dropWhile_cons, if_neg h]

theorem skipSpace_append_cons (h : Blank front) (hc : ¬isSpace c) (rest : List Char) :
    skipSpace (front ++ c :: rest) = c :: rest := by
  rw [skipSpace_append h, skipSpace_cons hc]

/-- What is passed over is blank. -/
theorem exists_blank_of_skipSpace (text : List Char) :
    ∃ blanks, Blank blanks ∧ text = blanks ++ skipSpace text :=
  ⟨_, fun _ hc => List.mem_takeWhile_imp hc, List.takeWhile_append_dropWhile.symm⟩

theorem skipSpace_skipSpace (text : List Char) : skipSpace (skipSpace text) = skipSpace text := by
  obtain ⟨blanks, hblanks, htext⟩ := exists_blank_of_skipSpace text
  rw [← skipSpace_append hblanks, ← htext]

/-- Readers pass over blanks. -/
theorem take_skipSpace (fuel : Nat) (text : List Char) :
    take fuel (skipSpace text) = take fuel text := by
  cases fuel with
  | zero => rfl
  | succ fuel => rw [take, take, skipSpace_skipSpace]

theorem takeItems_skipSpace (fuel : Nat) (text : List Char) :
    takeItems fuel (skipSpace text) = takeItems fuel text := by
  cases fuel with
  | zero => rfl
  | succ fuel => rw [takeItems, takeItems, take_skipSpace]

theorem takeMembers_skipSpace (fuel : Nat) (text : List Char) :
    takeMembers fuel (skipSpace text) = takeMembers fuel text := by
  cases fuel with
  | zero => rfl
  | succ fuel => rw [takeMembers, takeMembers, skipSpace_skipSpace]

theorem stops_of_isSpace (h : isSpace c) (rest : List Char) : Numeral.Stops (c :: rest) := by
  rintro d hd
  obtain rfl : c = d := by simpa using hd
  simp only [isSpace, Bool.or_eq_true, decide_eq_true_eq] at h
  rcases h with ((rfl | rfl) | rfl) | rfl <;> decide

theorem stops_append (h : Blank front) (hr : Numeral.Stops rest) :
    Numeral.Stops (front ++ rest) := by
  cases front with
  | nil => exact hr
  | cons c front => exact stops_of_isSpace (h c List.mem_cons_self) _

theorem stops_cons (h : c ∈ [',', ']', '}']) (rest : List Char) : Numeral.Stops (c :: rest) := by
  intro d hd
  obtain rfl : c = d := by simpa using hd
  simp only [List.mem_cons, List.not_mem_nil, or_false] at h
  rcases h with rfl | rfl | rfl <;> decide

end Blanks

/-! ## Values -/

mutual

/-- The text spells a value, from its first character to its last one. -/
inductive Spells : List Char → Reading → Prop
  | null : Spells ['n', 'u', 'l', 'l'] .null
  | true : Spells ['t', 'r', 'u', 'e'] (.bool true)
  | false : Spells ['f', 'a', 'l', 's', 'e'] (.bool false)
  | number {text : List Char} {n : Numeral} (h : Numeral.Spells text n) : Spells text (.number n)
  | string {text : List Char} {pieces : List Quoted.Piece} (h : Quoted.Spells text pieces) :
      Spells ('"' :: (text ++ ['"'])) (.string ((Quoted.join? pieces).map String.ofList))
  | emptyArray {blanks : List Char} (h : Blank blanks) :
      Spells ('[' :: (blanks ++ [']'])) (.array [] true)
  | array {text : List Char} {items : List Reading} (h : SpellsItems text items) :
      Spells ('[' :: (text ++ [']'])) (.array items true)
  | emptyObject {blanks : List Char} (h : Blank blanks) :
      Spells ('{' :: (blanks ++ ['}'])) (.object [] true)
  | object {text : List Char} {members : List (Option String × Reading)}
      (h : SpellsMembers text members) : Spells ('{' :: (text ++ ['}'])) (.object members true)

/-- The text holds one value, with nothing but blanks around it. -/
inductive Holds : List Char → Reading → Prop
  | intro {before text after : List Char} {value : Reading} (hbefore : Blank before)
      (h : Spells text value) (hafter : Blank after) : Holds (before ++ (text ++ after)) value

/-- The text spells the items of an array, with commas between them. -/
inductive SpellsItems : List Char → List Reading → Prop
  | last {text : List Char} {item : Reading} (h : Holds text item) : SpellsItems text [item]
  | cons {text rest : List Char} {item : Reading} {items : List Reading} (h : Holds text item)
      (hrest : SpellsItems rest items) : SpellsItems (text ++ ',' :: rest) (item :: items)

/-- The text spells the members of an object, with commas between them. -/
inductive SpellsMembers : List Char → List (Option String × Reading) → Prop
  | last {before key after text : List Char} {pieces : List Quoted.Piece} {value : Reading}
      (hbefore : Blank before) (hkey : Quoted.Spells key pieces) (hafter : Blank after)
      (h : Holds text value) :
      SpellsMembers (before ++ '"' :: (key ++ '"' :: (after ++ ':' :: text)))
        [((Quoted.join? pieces).map String.ofList, value)]
  | cons {before key after text rest : List Char} {pieces : List Quoted.Piece} {value : Reading}
      {members : List (Option String × Reading)} (hbefore : Blank before)
      (hkey : Quoted.Spells key pieces) (hafter : Blank after) (h : Holds text value)
      (hrest : SpellsMembers rest members) :
      SpellsMembers (before ++ '"' :: (key ++ '"' :: (after ++ ':' :: (text ++ ',' :: rest))))
        (((Quoted.join? pieces).map String.ofList, value) :: members)

end

/-! ## Readers take what the grammar allows -/

/-- Blanks, and the characters that numbers cannot be mistaken for. -/
def marks : List Char :=
  [' ', '\t', '\n', '\r', '"', '[', ']', '{', '}', 'n', 't', 'f']

variable {text rest : List Char} {value : Reading} {fuel : Nat}

theorem exists_number_eq_cons {n : Numeral} (h : Numeral.Spells text n) :
    ∃ c tail, text = c :: tail ∧ ∀ d ∈ marks, c ≠ d := by
  have hmarks : ∀ d ∈ marks, ¬(d = '-' ∨ d.isDigit) := by simp [marks]
  cases h with
  | unsigned hwhole hfraction hexponent =>
    obtain ⟨c, tail, rfl, hc⟩ := Numeral.exists_whole_eq_cons hwhole
    exact ⟨c, _, rfl, fun d hd heq => hmarks d hd (.inr (heq ▸ hc))⟩
  | negative hwhole hfraction hexponent =>
    exact ⟨'-', _, rfl, fun d hd heq => hmarks d hd (.inl heq.symm)⟩

/-- A value begins with no blank and with no mark that closes an array. -/
theorem Spells.exists_eq_cons (h : Spells text value) :
    ∃ c tail, text = c :: tail ∧ ¬isSpace c ∧ c ≠ ']' := by
  cases h with
  | number h =>
    obtain ⟨c, tail, rfl, hne⟩ := exists_number_eq_cons h
    refine ⟨c, tail, rfl, ?_, hne ']' (by decide)⟩
    simp only [marks, List.forall_mem_cons] at hne
    simp [isSpace, hne]
  | _ => exact ⟨_, _, rfl, by decide, by decide⟩

theorem Holds.length_pos (h : Holds text value) : 0 < text.length := by
  obtain ⟨-, hcore, -⟩ := h
  obtain ⟨c, tail, rfl, -⟩ := hcore.exists_eq_cons
  simp only [List.length_append, List.length_cons]
  omega

theorem take_number {n : Numeral} (hn : Numeral.Spells text n) (h : Numeral.Stops rest) :
    take (fuel + 1) (text ++ rest) = (.number n, some rest) := by
  have hread := Numeral.take?_append hn h
  obtain ⟨c, tail, rfl, hne⟩ := exists_number_eq_cons hn
  simp only [marks, List.forall_mem_cons] at hne
  have hspace : ¬isSpace c := by simp [isSpace, hne]
  rw [List.cons_append] at hread ⊢
  simp [take, skipSpace_cons hspace, takeScalar, takeWord?, hread, hne]

theorem takeString?_append {pieces : List Quoted.Piece} (h : Quoted.Spells text pieces)
    (rest : List Char) :
    takeString? (text ++ '"' :: rest) =
      some ((Quoted.join? pieces).map String.ofList, rest) := by
  rw [takeString?, Quoted.take?_append h, Option.map_some]

theorem take_string {pieces : List Quoted.Piece} (h : Quoted.Spells text pieces)
    (rest : List Char) :
    take (fuel + 1) ('"' :: (text ++ '"' :: rest)) =
      (.string ((Quoted.join? pieces).map String.ofList), some rest) := by
  have hspace : ¬isSpace '"' := by decide
  simp [take, skipSpace_cons hspace, takeScalar, takeString?_append h]

theorem take_array (h : (skipSpace text).head? ≠ some ']') :
    take (fuel + 1) ('[' :: text) =
      (.array (takeItems fuel text).1 (takeItems fuel text).2.isSome, (takeItems fuel text).2) := by
  have hspace : ¬isSpace '[' := by decide
  simp only [take, skipSpace_cons hspace]
  split
  · next heq =>
    rw [heq] at h
    exact absurd rfl h
  · rw [takeItems_skipSpace]

theorem take_object (h : (skipSpace text).head? ≠ some '}') :
    take (fuel + 1) ('{' :: text) =
      (.object (takeMembers fuel text).1 (takeMembers fuel text).2.isSome,
        (takeMembers fuel text).2) := by
  have hspace : ¬isSpace '{' := by decide
  simp only [take, skipSpace_cons hspace]
  split
  · next heq =>
    rw [heq] at h
    exact absurd rfl h
  · rw [takeMembers_skipSpace]

theorem Holds.head?_skipSpace (h : Holds text value) (rest : List Char) :
    (skipSpace (text ++ rest)).head? ≠ some ']' := by
  obtain ⟨hbefore, hcore, -⟩ := h
  obtain ⟨c, tail, rfl, hspace, hne⟩ := hcore.exists_eq_cons
  simpa [skipSpace_append_cons hbefore hspace] using hne

theorem SpellsItems.head?_skipSpace {items : List Reading} (h : SpellsItems text items)
    (rest : List Char) : (skipSpace (text ++ rest)).head? ≠ some ']' := by
  cases h with
  | last h => exact h.head?_skipSpace rest
  | cons h hrest =>
    rw [List.append_assoc]
    exact h.head?_skipSpace _

theorem SpellsMembers.head?_skipSpace {members : List (Option String × Reading)}
    (h : SpellsMembers text members) (rest : List Char) :
    (skipSpace (text ++ rest)).head? ≠ some '}' := by
  have hquote : ¬isSpace '"' := by decide
  cases h with
  | last hbefore hkey hafter h => simp [skipSpace_append_cons hbefore hquote]
  | cons hbefore hkey hafter h hrest => simp [skipSpace_append_cons hbefore hquote]

/-! The induction is on the fuel of the reader. Each character of a text is worth two steps, one into
a value and one into the rest of its container. -/

/-- The fuel is enough for every value that is no longer than half of it. -/
def Suffices (fuel : Nat) : Prop :=
  ∀ (text : List Char) (value : Reading) (rest : List Char), Spells text value →
    2 * text.length ≤ fuel → Numeral.Stops rest → take fuel (text ++ rest) = (value, some rest)

/-- The fuel is enough for the items of an array, from some item on. -/
def SufficesForItems (fuel : Nat) : Prop :=
  ∀ (text : List Char) (items : List Reading) (rest : List Char), SpellsItems text items →
    2 * text.length < fuel → takeItems fuel (text ++ ']' :: rest) = (items, some rest)

/-- The fuel is enough for the members of an object, from some member on. -/
def SufficesForMembers (fuel : Nat) : Prop :=
  ∀ (text : List Char) (members : List (Option String × Reading)) (rest : List Char),
    SpellsMembers text members → 2 * text.length < fuel →
    takeMembers fuel (text ++ '}' :: rest) = (members, some rest)

theorem suffices_succ (hi : SufficesForItems fuel) (hm : SufficesForMembers fuel) :
    Suffices (fuel + 1) := by
  intro text value rest hvalue hfuel hstops
  have hclose : ¬isSpace ']' := by decide
  have hend : ¬isSpace '}' := by decide
  cases hvalue with
  | null => simp [take, skipSpace, isSpace, takeScalar, takeWord?]
  | true => simp [take, skipSpace, isSpace, takeScalar, takeWord?]
  | false => simp [take, skipSpace, isSpace, takeScalar, takeWord?]
  | number h => exact take_number h hstops
  | string h =>
    rw [List.cons_append, List.append_assoc]
    exact take_string h rest
  | emptyArray h => simp [take, skipSpace_cons, isSpace, skipSpace_append_cons h hclose]
  | array h =>
    have hitems := hi _ _ rest h (by simp at hfuel; omega)
    rw [List.cons_append, List.append_assoc, List.singleton_append,
      take_array (h.head?_skipSpace _), hitems]
    rfl
  | emptyObject h => simp [take, skipSpace_cons, isSpace, skipSpace_append_cons h hend]
  | object h =>
    have hmembers := hm _ _ rest h (by simp at hfuel; omega)
    rw [List.cons_append, List.append_assoc, List.singleton_append,
      take_object (h.head?_skipSpace _), hmembers]
    rfl

/-- A value between blanks is read up to the blanks after it. -/
theorem Suffices.holds (hs : Suffices fuel) (h : Holds text value) (hfuel : 2 * text.length ≤ fuel)
    (hstops : Numeral.Stops rest) :
    ∃ after, Blank after ∧ take fuel (text ++ rest) = (value, some (after ++ rest)) := by
  obtain ⟨hbefore, hcore, hafter⟩ := h
  refine ⟨_, hafter, ?_⟩
  rw [← take_skipSpace, List.append_assoc, skipSpace_append hbefore, take_skipSpace,
    List.append_assoc]
  refine hs _ _ _ hcore ?_ (stops_append hafter hstops)
  simp only [List.length_append] at hfuel
  omega

theorem sufficesForItems_succ (hs : Suffices fuel) (hi : SufficesForItems fuel) :
    SufficesForItems (fuel + 1) := by
  intro text items rest hitems hfuel
  have hbracket : ¬isSpace ']' := by decide
  have hcomma : ¬isSpace ',' := by decide
  have hstops : ∀ c ∈ [',', ']', '}'], ∀ tail, Numeral.Stops (c :: tail) := fun c => stops_cons
  cases hitems with
  | last h =>
    obtain ⟨after, hafter, hread⟩ := hs.holds h (by omega) (hstops ']' (by decide) rest)
    rw [takeItems, hread]
    simp [skipSpace_append_cons hafter hbracket]
  | cons h hrest =>
    have hpos := h.length_pos
    simp only [List.length_append, List.length_cons] at hfuel
    have hnext := hi _ _ rest hrest (by omega)
    rw [List.append_assoc, List.cons_append]
    obtain ⟨after, hafter, hread⟩ := hs.holds h (by omega) (hstops ',' (by decide) _)
    rw [takeItems, hread]
    simp [skipSpace_append_cons hafter hcomma, hnext]

section Members

variable {before key after tail : List Char} {pieces : List Quoted.Piece} (hbefore : Blank before)
  (hkey : Quoted.Spells key pieces) (hafter : Blank after)
  (h : take fuel text = (value, some rest))

include hbefore hkey hafter h

theorem takeMembers_last (hrest : skipSpace rest = '}' :: tail) :
    takeMembers (fuel + 1) (before ++ '"' :: (key ++ '"' :: (after ++ ':' :: text))) =
      ([((Quoted.join? pieces).map String.ofList, value)], some tail) := by
  have hquote : ¬isSpace '"' := by decide
  have hcolon : ¬isSpace ':' := by decide
  simp only [takeMembers, skipSpace_append_cons hbefore hquote, takeString?_append hkey,
    skipSpace_append_cons hafter hcolon, h, hrest]

theorem takeMembers_more {members : List (Option String × Reading)} {last : Option (List Char)}
    (hrest : skipSpace rest = ',' :: tail) (hmembers : takeMembers fuel tail = (members, last)) :
    takeMembers (fuel + 1) (before ++ '"' :: (key ++ '"' :: (after ++ ':' :: text))) =
      (((Quoted.join? pieces).map String.ofList, value) :: members, last) := by
  have hquote : ¬isSpace '"' := by decide
  have hcolon : ¬isSpace ':' := by decide
  simp only [takeMembers, skipSpace_append_cons hbefore hquote, takeString?_append hkey,
    skipSpace_append_cons hafter hcolon, h, hrest, hmembers]

end Members

theorem sufficesForMembers_succ (hs : Suffices fuel) (hm : SufficesForMembers fuel) :
    SufficesForMembers (fuel + 1) := by
  intro text members rest hmembers hfuel
  have hbrace : ¬isSpace '}' := by decide
  have hcomma : ¬isSpace ',' := by decide
  have hstops : ∀ c ∈ [',', ']', '}'], ∀ tail, Numeral.Stops (c :: tail) := fun c => stops_cons
  cases hmembers with
  | last hbefore hkey hafter h =>
    simp only [List.length_append, List.length_cons] at hfuel
    obtain ⟨blanks, hblanks, hread⟩ := hs.holds h (by omega) (hstops '}' (by decide) rest)
    simp only [List.append_assoc, List.cons_append]
    exact takeMembers_last hbefore hkey hafter hread (skipSpace_append_cons hblanks hbrace rest)
  | cons hbefore hkey hafter h hrest =>
    simp only [List.length_append, List.length_cons] at hfuel
    have hnext := hm _ _ rest hrest (by omega)
    obtain ⟨blanks, hblanks, hread⟩ := hs.holds h (by omega) (hstops ',' (by decide) _)
    simp only [List.append_assoc, List.cons_append]
    exact takeMembers_more hbefore hkey hafter hread (skipSpace_append_cons hblanks hcomma _) hnext

theorem suffices_all (fuel : Nat) :
    Suffices fuel ∧ SufficesForItems fuel ∧ SufficesForMembers fuel := by
  induction fuel with
  | zero =>
    refine ⟨fun text value rest h hfuel => ?_, fun _ _ _ _ hfuel => ?_, fun _ _ _ _ hfuel => ?_⟩
    · obtain ⟨c, tail, rfl, -⟩ := h.exists_eq_cons
      simp at hfuel
    · omega
    · omega
  | succ fuel ih =>
    exact ⟨suffices_succ ih.2.1 ih.2.2, sufficesForItems_succ ih.1 ih.2.1,
      sufficesForMembers_succ ih.1 ih.2.2⟩

/-! ## Readers take nothing else -/

/-- What is read as a value without a break spells it. -/
def IsSpelled (fuel : Nat) : Prop :=
  ∀ (text : List Char) (value : Reading) (rest : List Char), take fuel text = (value, some rest) →
    ∃ before front, Blank before ∧ Spells front value ∧ text = before ++ (front ++ rest)

def ItemsAreSpelled (fuel : Nat) : Prop :=
  ∀ (text : List Char) (items : List Reading) (rest : List Char),
    takeItems fuel text = (items, some rest) →
    ∃ front, SpellsItems front items ∧ text = front ++ ']' :: rest

def MembersAreSpelled (fuel : Nat) : Prop :=
  ∀ (text : List Char) (members : List (Option String × Reading)) (rest : List Char),
    takeMembers fuel text = (members, some rest) →
    ∃ front, SpellsMembers front members ∧ text = front ++ '}' :: rest

theorem exists_of_takeWord? {word : Reading} (h : takeWord? text = some (word, rest)) :
    ∃ front, Spells front word ∧ text = front ++ rest := by
  revert h
  fun_cases takeWord? text with
  | case1 tail =>
    intro h
    obtain ⟨rfl, rfl⟩ := Prod.mk.inj (Option.some.inj h)
    exact ⟨_, .null, rfl⟩
  | case2 tail =>
    intro h
    obtain ⟨rfl, rfl⟩ := Prod.mk.inj (Option.some.inj h)
    exact ⟨_, .true, rfl⟩
  | case3 tail =>
    intro h
    obtain ⟨rfl, rfl⟩ := Prod.mk.inj (Option.some.inj h)
    exact ⟨_, .false, rfl⟩
  | case4 => exact fun h => by contradiction

theorem exists_of_takeString? {string : Option String}
    (h : takeString? text = some (string, rest)) :
    ∃ front pieces, Quoted.Spells front pieces ∧
      string = (Quoted.join? pieces).map String.ofList ∧ text = front ++ '"' :: rest := by
  obtain ⟨⟨pieces, tail⟩, htake, heq⟩ := Option.map_eq_some_iff.mp h
  obtain ⟨rfl, rfl⟩ := Prod.mk.inj heq
  obtain ⟨front, hfront, rfl⟩ := Quoted.exists_of_take? htake
  exact ⟨front, pieces, hfront, rfl, rfl⟩

theorem exists_of_takeScalar (h : takeScalar text = (value, some rest)) :
    ∃ front, Spells front value ∧ text = front ++ rest := by
  revert h
  fun_cases takeScalar text with
  | case1 tail string last hstring =>
    intro h
    obtain ⟨rfl, heq⟩ := Prod.mk.inj h
    obtain rfl := Option.some.inj heq
    obtain ⟨front, pieces, hfront, rfl, rfl⟩ := exists_of_takeString? hstring
    exact ⟨_, .string hfront, by simp⟩
  | case2 => exact fun h => by simp at h
  | case3 _ hquote word last hword =>
    intro h
    obtain ⟨rfl, heq⟩ := Prod.mk.inj h
    obtain rfl := Option.some.inj heq
    exact exists_of_takeWord? hword
  | case4 _ hquote hword n last hnumber =>
    intro h
    obtain ⟨rfl, heq⟩ := Prod.mk.inj h
    obtain rfl := Option.some.inj heq
    obtain ⟨front, hfront, rfl⟩ := Numeral.exists_of_take? hnumber
    exact ⟨_, .number hfront, rfl⟩
  | case5 => exact fun h => by simp at h

theorem isSpelled_succ (hi : ItemsAreSpelled fuel) (hm : MembersAreSpelled fuel) :
    IsSpelled (fuel + 1) := by
  intro text value rest h
  obtain ⟨before, hbefore, htext⟩ := exists_blank_of_skipSpace text
  simp only [take] at h
  split at h
  · next tail htail =>
    obtain ⟨blanks, hblanks, hinner⟩ := exists_blank_of_skipSpace tail
    rw [htail] at htext
    split at h
    · next last hlast =>
      obtain ⟨rfl, heq⟩ := Prod.mk.inj h
      obtain rfl := Option.some.inj heq
      refine ⟨before, _, hbefore, .emptyArray hblanks, ?_⟩
      rw [htext, hinner, hlast]
      simp
    · rw [takeItems_skipSpace] at h
      obtain ⟨rfl, heq⟩ := Prod.mk.inj h
      obtain ⟨front, hfront, hrest⟩ := hi tail _ rest (Prod.ext rfl heq)
      rw [heq]
      refine ⟨before, _, hbefore, .array hfront, ?_⟩
      rw [htext, hrest]
      simp
  · next tail htail =>
    obtain ⟨blanks, hblanks, hinner⟩ := exists_blank_of_skipSpace tail
    rw [htail] at htext
    split at h
    · next last hlast =>
      obtain ⟨rfl, heq⟩ := Prod.mk.inj h
      obtain rfl := Option.some.inj heq
      refine ⟨before, _, hbefore, .emptyObject hblanks, ?_⟩
      rw [htext, hinner, hlast]
      simp
    · rw [takeMembers_skipSpace] at h
      obtain ⟨rfl, heq⟩ := Prod.mk.inj h
      obtain ⟨front, hfront, hrest⟩ := hm tail _ rest (Prod.ext rfl heq)
      rw [heq]
      refine ⟨before, _, hbefore, .object hfront, ?_⟩
      rw [htext, hrest]
      simp
  · obtain ⟨front, hfront, hrest⟩ := exists_of_takeScalar h
    exact ⟨before, front, hbefore, hfront, hrest ▸ htext⟩

/-- A value that is read is between blanks, up to the next mark. -/
theorem IsSpelled.holds (hs : IsSpelled fuel) {tail : List Char} {c : Char}
    (h : take fuel text = (value, some rest)) (hrest : skipSpace rest = c :: tail) :
    ∃ front, Holds front value ∧ text = front ++ c :: tail := by
  obtain ⟨before, front, hbefore, hfront, rfl⟩ := hs text value rest h
  obtain ⟨after, hafter, hblank⟩ := exists_blank_of_skipSpace rest
  refine ⟨_, .intro hbefore hfront hafter, ?_⟩
  rw [hblank, hrest]
  simp

theorem itemsAreSpelled_succ (hs : IsSpelled fuel) (hi : ItemsAreSpelled fuel) :
    ItemsAreSpelled (fuel + 1) := by
  intro text items rest h
  simp only [takeItems] at h
  split at h
  · simp at h
  · next item tail htake =>
    split at h
    · next last hlast =>
      obtain ⟨rfl, heq⟩ := Prod.mk.inj h
      obtain rfl := Option.some.inj heq
      obtain ⟨front, hfront, rfl⟩ := hs.holds htake hlast
      exact ⟨front, .last hfront, rfl⟩
    · next last hlast =>
      obtain ⟨rfl, heq⟩ := Prod.mk.inj h
      obtain ⟨front, hfront, rfl⟩ := hs.holds htake hlast
      obtain ⟨others, hothers, rfl⟩ := hi last _ rest (Prod.ext rfl heq)
      exact ⟨_, .cons hfront hothers, by simp⟩
    · simp at h

theorem membersAreSpelled_succ (hs : IsSpelled fuel) (hm : MembersAreSpelled fuel) :
    MembersAreSpelled (fuel + 1) := by
  intro text members rest h
  obtain ⟨before, hbefore, htext⟩ := exists_blank_of_skipSpace text
  simp only [takeMembers] at h
  split at h
  · next tail htail =>
    rw [htail] at htext
    split at h
    · simp at h
    · next key afterKey hkey =>
      obtain ⟨front, pieces, hpieces, rfl, rfl⟩ := exists_of_takeString? hkey
      obtain ⟨after, hafter, hmiddle⟩ := exists_blank_of_skipSpace afterKey
      split at h
      · next afterColon hcolon =>
        rw [hcolon] at hmiddle
        split at h
        · simp at h
        · next value afterValue htake =>
          split at h
          · next last hlast =>
            obtain ⟨rfl, heq⟩ := Prod.mk.inj h
            obtain rfl := Option.some.inj heq
            obtain ⟨text, hvalue, rfl⟩ := hs.holds htake hlast
            refine ⟨_, .last hbefore hpieces hafter hvalue, ?_⟩
            rw [htext, hmiddle]
            simp
          · next last hlast =>
            obtain ⟨rfl, heq⟩ := Prod.mk.inj h
            obtain ⟨text, hvalue, rfl⟩ := hs.holds htake hlast
            obtain ⟨others, hothers, rfl⟩ := hm last _ rest (Prod.ext rfl heq)
            refine ⟨_, .cons hbefore hpieces hafter hvalue hothers, ?_⟩
            rw [htext, hmiddle]
            simp
          · simp at h
      · simp at h
  · simp at h

theorem isSpelled_all (fuel : Nat) :
    IsSpelled fuel ∧ ItemsAreSpelled fuel ∧ MembersAreSpelled fuel := by
  induction fuel with
  | zero =>
    refine ⟨fun _ _ _ h => ?_, fun _ _ _ h => ?_, fun _ _ _ h => ?_⟩
    · simp [take] at h
    · simp [takeItems] at h
    · simp [takeMembers] at h
  | succ fuel ih =>
    exact ⟨isSpelled_succ ih.2.1 ih.2.2, itemsAreSpelled_succ ih.1 ih.2.1,
      membersAreSpelled_succ ih.1 ih.2.2⟩

/-! ## Texts as a whole -/

/-- A text is got through as a whole just if it holds one value, and this is the value. -/
theorem ofText_eq_iff : ofText text = (value, true) ↔ Holds text value := by
  constructor
  · intro h
    simp only [ofText] at h
    split at h
    · next rest htake =>
      obtain ⟨rfl, hend⟩ := Prod.mk.inj h
      obtain ⟨before, front, hbefore, hfront, rfl⟩ := (isSpelled_all _).1 _ _ _ htake
      obtain ⟨after, hafter, hrest⟩ := exists_blank_of_skipSpace rest
      rw [List.isEmpty_iff.mp hend, List.append_nil] at hrest
      exact .intro hbefore hfront (hrest ▸ hafter)
    · simp at h
  · intro h
    have hstops : Numeral.Stops [] := by simp [Numeral.Stops]
    obtain ⟨after, hafter, hread⟩ := (suffices_all (2 * text.length + 2)).1.holds h (by omega) hstops
    rw [List.append_nil] at hread
    have hend : skipSpace (after ++ []) = [] := skipSpace_append hafter []
    simp only [ofText, hread, hend, List.isEmpty_nil]

/-- A text holds one value only. -/
theorem Holds.unique {value' : Reading} (h : Holds text value) (h' : Holds text value') :
    value = value' :=
  (Prod.mk.inj ((ofText_eq_iff.mpr h).symm.trans (ofText_eq_iff.mpr h'))).1

mutual

/-- A value that is spelled is whole. -/
theorem Spells.isWhole {text : List Char} {value : Reading} : Spells text value → value.isWhole
  | .null | .true | .false | .number _ | .string _ | .emptyArray _ | .emptyObject _ => rfl
  | .array h => by simp [Reading.isWhole, h.areWhole]
  | .object h => by simp [Reading.isWhole, h.haveWhole]

theorem Holds.isWhole {text : List Char} {value : Reading} : Holds text value → value.isWhole
  | .intro _ h _ => h.isWhole

theorem SpellsItems.areWhole {text : List Char} {items : List Reading} :
    SpellsItems text items → Reading.areWhole items
  | .last h => by simp [Reading.areWhole, h.isWhole]
  | .cons h hrest => by simp [Reading.areWhole, h.isWhole, hrest.areWhole]

theorem SpellsMembers.haveWhole {text : List Char} {members : List (Option String × Reading)} :
    SpellsMembers text members → Reading.haveWhole members
  | .last _ _ _ h => by simp [Reading.haveWhole, h.isWhole]
  | .cons _ _ _ h hrest => by simp [Reading.haveWhole, h.isWhole, hrest.haveWhole]

end

end Reading

end Daybook.Json
