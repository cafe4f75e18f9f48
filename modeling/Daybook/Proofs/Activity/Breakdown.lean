import Daybook.Activity.Breakdown
import Mathlib.Algebra.BigOperators.Group.List.Basic
import Mathlib.Algebra.Order.Ring.Int
import Mathlib.Data.List.Induction
import Mathlib.Data.List.Nodup

/-! # Sums by name

A tally has every name once, in the order in which the names come first, with the sum of all its
amounts. A breakdown of amounts that were already summed up by path is that of the single amounts. -/

namespace Daybook

/-! ## Distinct elements, stable order and partial sums -/

section Lists

variable {α κ : Type} [DecidableEq κ]

theorem eraseDups_concat (l : List κ) (k : κ) :
    (l ++ [k]).eraseDups = l.eraseDups ++ if k ∈ l then [] else [k] := by
  rw [List.eraseDups_append]
  by_cases h : k ∈ l <;> simp [List.removeAll, h, List.eraseDups_cons]

theorem nodup_eraseDups (l : List κ) : l.eraseDups.Nodup := by
  induction l using List.reverseRecOn with
  | nil => exact List.nodup_nil
  | append_singleton l k ih =>
    rw [eraseDups_concat]
    by_cases h : k ∈ l
    · simpa [h] using ih
    · rw [if_neg h]
      refine List.nodup_append'.mpr ⟨ih, List.nodup_singleton k, ?_⟩
      simpa using h

/-- The distinct elements of a list are in the order of their first places in it. -/
theorem pairwise_eraseDups (l : List κ) :
    l.eraseDups.Pairwise fun j k => l.idxOf j < l.idxOf k := by
  induction l using List.reverseRecOn with
  | nil => exact List.Pairwise.nil
  | append_singleton l k ih =>
    have hold : ∀ j ∈ l, (l ++ [k]).idxOf j = l.idxOf j := fun j hj => List.idxOf_append_of_mem hj
    have hfront : l.eraseDups.Pairwise fun i j => (l ++ [k]).idxOf i < (l ++ [k]).idxOf j := by
      refine ih.imp_of_mem fun hi hj hlt => ?_
      rwa [hold _ (List.mem_eraseDups.mp hi), hold _ (List.mem_eraseDups.mp hj)]
    rw [eraseDups_concat]
    by_cases hk : k ∈ l
    · simpa [hk] using hfront
    · rw [if_neg hk, List.pairwise_append]
      refine ⟨hfront, List.pairwise_singleton _ _, fun j hj k' hk' => ?_⟩
      obtain rfl := List.mem_singleton.mp hk'
      have hj := List.mem_eraseDups.mp hj
      rw [hold j hj, List.idxOf_append_of_notMem hk]
      exact Nat.lt_add_right _ (List.idxOf_lt_length_of_mem hj)

/-- Elements that a sort cannot tell apart stay in their order. -/
theorem filter_mergeSort {le : α → α → Bool} (htrans : ∀ a b c, le a b → le b c → le a c)
    (htotal : ∀ a b, le a b || le b a) {p : α → Bool} (h : ∀ a b, p a → p b → le a b)
    (l : List α) : (l.mergeSort le).filter p = l.filter p := by
  have hsorted : (l.filter p).Pairwise fun a b => le a b := by
    apply List.pairwise_of_forall_mem_list
    intro a ha b hb
    exact h a b (List.mem_filter.mp ha).2 (List.mem_filter.mp hb).2
  have hsublist := (List.sublist_mergeSort htrans htotal hsorted List.filter_sublist).filter p
  rw [List.filter_filter] at hsublist
  simp only [Bool.and_self] at hsublist
  exact (hsublist.eq_of_length ((List.mergeSort_perm l le).filter p).length_eq.symm).symm

/-- Distinct numbers that are sorted come in strictly ascending order. -/
theorem pairwise_lt_mergeSort_eraseDups (l : List Int64) :
    (l.eraseDups.mergeSort fun m n => decide (m ≤ n)).Pairwise (· < ·) := by
  have htrans : ∀ k m n : Int64, decide (k ≤ m) → decide (m ≤ n) → decide (k ≤ n) := by
    simpa using fun _ _ _ => Int64.le_trans
  have htotal : ∀ m n : Int64, decide (m ≤ n) || decide (n ≤ m) := by
    simpa using Int64.le_total
  have hle : (l.eraseDups.mergeSort fun m n => decide (m ≤ n)).Pairwise (· ≤ ·) := by
    simpa using List.pairwise_mergeSort htrans htotal l.eraseDups
  have hne : (l.eraseDups.mergeSort fun m n => decide (m ≤ n)).Nodup :=
    (List.mergeSort_perm _ _).nodup_iff.mpr (nodup_eraseDups l)
  exact (hle.and hne).imp fun ⟨hle, hne⟩ => Int64.lt_of_le_of_ne hle hne

theorem sum_map_ite {keys : List κ} (hnodup : keys.Nodup) {k : κ} (h : k ∈ keys) (n : Int) :
    (keys.map fun key => if k = key then n else 0).sum = n := by
  induction keys with
  | nil => contradiction
  | cons key keys ih =>
    obtain ⟨hkey, hnodup⟩ := List.nodup_cons.mp hnodup
    by_cases heq : k = key
    · subst heq
      have hzero : (keys.map fun key => if k = key then n else 0) = keys.map fun _ => 0 := by
        refine List.map_congr_left fun key hmem => if_neg ?_
        rintro rfl
        exact hkey hmem
      simp [hzero]
    · have hmem : k ∈ keys := (List.mem_cons.mp h).resolve_left heq
      simp [heq, ih hnodup hmem]

/-- Sums over groups add up to the sum over all if each element is in one of the groups. -/
theorem sum_sum_filter {keys : List κ} (hnodup : keys.Nodup) (key : α → κ) (value : α → Int)
    {items : List α} (h : ∀ a ∈ items, key a ∈ keys) :
    (keys.map fun k => ((items.filter fun a => key a = k).map value).sum).sum =
      (items.map value).sum := by
  induction items with
  | nil => simp
  | cons a items ih =>
    have hitem : ∀ k, (((a :: items).filter fun a => key a = k).map value).sum =
        (if key a = k then value a else 0) +
          ((items.filter fun a => key a = k).map value).sum := by
      intro k
      by_cases hk : key a = k <;> simp [hk]
    rw [List.forall_mem_cons] at h
    simp only [hitem, List.sum_map_add, sum_map_ite hnodup h.1, ih h.2, List.map_cons,
      List.sum_cons]

end Lists

namespace Tally

variable {entries : List (String × Int)} {t : Tally} {name : String}

/-- The sum of all amounts that carry a name. -/
def sumOf (entries : List (String × Int)) (name : String) : Int :=
  ((entries.filter fun e => e.1 = name).map (·.2)).sum

theorem sumOf_cons (e : String × Int) (entries : List (String × Int)) (name : String) :
    sumOf (e :: entries) name = (if e.1 = name then e.2 else 0) + sumOf entries name := by
  by_cases h : e.1 = name <;> simp [sumOf, h]

theorem sumOf_append (front rest : List (String × Int)) (name : String) :
    sumOf (front ++ rest) name = sumOf front name + sumOf rest name := by
  simp [sumOf]

theorem sumOf_add (t : Tally) (other : String) (amount : Int) (name : String) :
    sumOf (t.add other amount) name = sumOf t name + if other = name then amount else 0 := by
  induction t with
  | nil =>
    rw [add, sumOf_cons]
    simp [sumOf]
  | cons entry rest ih =>
    by_cases h : entry.1 = other
    · subst h
      by_cases hn : entry.1 = name <;> simp [add, sumOf_cons, hn]
      omega
    · rw [add, if_neg h, sumOf_cons, sumOf_cons, ih]
      exact (add_assoc _ _ _).symm

theorem ofEntries_append (front : List (String × Int)) (e : String × Int) :
    ofEntries (front ++ [e]) = (ofEntries front).add e.1 e.2 := by
  rw [ofEntries, List.foldl_append]
  rfl

theorem sumOf_ofEntries (entries : List (String × Int)) (name : String) :
    sumOf (ofEntries entries) name = sumOf entries name := by
  induction entries using List.reverseRecOn with
  | nil => rfl
  | append_singleton front e ih =>
    rw [ofEntries_append, sumOf_add, ih, sumOf_append, sumOf_cons]
    simp [sumOf]

/-- Names come in the order of their first amounts. -/
theorem names_ofEntries (entries : List (String × Int)) :
    (ofEntries entries).map (·.1) = (entries.map (·.1)).eraseDups := by
  induction entries using List.reverseRecOn with
  | nil => rfl
  | append_singleton front e ih =>
    have hmem : e.1 ∈ (front.map (·.1)).eraseDups ↔ e.1 ∈ front.map (·.1) := List.mem_eraseDups
    rw [ofEntries_append, names_add, ih, List.map_append, List.map_singleton, eraseDups_concat]
    simp only [hmem]

theorem sumOf_of_notMem (h : name ∉ entries.map (·.1)) : sumOf entries name = 0 := by
  have hnone : entries.filter (·.1 = name) = [] := by
    apply List.filter_eq_nil_iff.mpr
    intro e he
    rw [decide_eq_true_eq]
    rintro rfl
    exact h (List.mem_map_of_mem he)
  rw [sumOf, hnone]
  rfl

/-- With every name just once, sums are single amounts. -/
theorem sumOf_of_mem {amount : Int} (hnodup : (entries.map (·.1)).Nodup)
    (h : (name, amount) ∈ entries) : sumOf entries name = amount := by
  induction entries with
  | nil => contradiction
  | cons e entries ih =>
    obtain ⟨hnotMem, hnodup⟩ := List.nodup_cons.mp hnodup
    rw [sumOf_cons]
    rcases List.mem_cons.mp h with rfl | h
    · rw [if_pos rfl, sumOf_of_notMem hnotMem, add_zero]
    · have hne : e.1 ≠ name := by
        rintro rfl
        exact hnotMem (List.mem_map.mpr ⟨_, h, rfl⟩)
      rw [if_neg hne, ih hnodup h, zero_add]

theorem mem_ofEntries {total : Int} :
    (name, total) ∈ ofEntries entries ↔
      name ∈ entries.map (·.1) ∧ total = sumOf entries name := by
  have hnames := names_ofEntries entries
  have hnodup : ((ofEntries entries).map (·.1)).Nodup := hnames ▸ nodup_eraseDups _
  have hsum : ∀ total, (name, total) ∈ ofEntries entries → total = sumOf entries name := by
    intro total h
    rw [← sumOf_ofEntries, sumOf_of_mem hnodup h]
  constructor
  · intro h
    have hmem : name ∈ (ofEntries entries).map (·.1) := List.mem_map_of_mem h
    rw [hnames, List.mem_eraseDups] at hmem
    exact ⟨hmem, hsum total h⟩
  · rintro ⟨hname, rfl⟩
    rw [← List.mem_eraseDups, ← hnames] at hname
    obtain ⟨⟨_, total⟩, h, rfl⟩ := List.mem_map.mp hname
    rwa [hsum total h] at h

end Tally

namespace Breakdown

/-- What a breakdown is to show: each name that has any entries, once, with the sum of the amounts of
all of them. -/
structure Sums (b : Breakdown) (entries : List (String × Int)) : Prop where
  nodup : (b.slices.map (·.name)).Nodup
  mem_iff : ∀ name total, ⟨name, total⟩ ∈ b.slices ↔
    name ∈ entries.map (·.1) ∧ total = Tally.sumOf entries name

/-- An entry under the last segment of its path. -/
def named (entry : String × Int) : String × Int :=
  (Path.lastSegment entry.1, entry.2)

theorem sums_ofEntries (entries : List (String × Int)) :
    (ofEntries entries).Sums (entries.map named) := by
  have hperm := List.mergeSort_perm (Tally.ofEntries (entries.map named))
    fun a b => decide (b.2 ≤ a.2)
  constructor
  · have hnames : ((ofEntries entries).slices.map (·.name)).Perm
        ((Tally.ofEntries (entries.map named)).map (·.1)) := by
      rw [ofEntries, List.map_map]
      exact hperm.map _
    rw [hnames.nodup_iff, Tally.names_ofEntries]
    exact nodup_eraseDups _
  · intro name total
    rw [← Tally.mem_ofEntries, ← hperm.mem_iff]
    simp only [ofEntries, List.mem_map, Slice.mk.injEq, Prod.exists]
    constructor
    · rintro ⟨n, t, h, rfl, rfl⟩
      exact h
    · exact fun h => ⟨name, total, h, rfl, rfl⟩

theorem Sums.congr {b : Breakdown} {entries others : List (String × Int)} (h : b.Sums entries)
    (hmem : ∀ name, name ∈ entries.map (·.1) ↔ name ∈ others.map (·.1))
    (hsum : ∀ name, Tally.sumOf entries name = Tally.sumOf others name) : b.Sums others where
  nodup := h.nodup
  mem_iff name total := by rw [h.mem_iff, hmem, hsum]

theorem sumOf_map_named (entries : List (String × Int)) (name : String) :
    Tally.sumOf (entries.map named) name =
      ((entries.filter fun e => Path.lastSegment e.1 = name).map (·.2)).sum := by
  have hname : (entries.map named).filter (·.1 = name) =
      (entries.filter fun e => Path.lastSegment e.1 = name).map named := by
    rw [List.filter_map]
    apply congrArg
    apply List.filter_congr
    intro e _
    rw [Bool.eq_iff_iff, Function.comp_apply, decide_eq_true_eq, decide_eq_true_eq, named]
  rw [Tally.sumOf, hname, List.map_map]
  rfl

/-- All entries of a path carry the name of the path, so they are also the entries of the path among
those of its name. -/
theorem filter_name_path {path name : String} (h : Path.lastSegment path = name)
    (entries : List (String × Int)) :
    (entries.filter fun e => Path.lastSegment e.1 = name).filter (fun e => e.1 = path) =
      entries.filter fun e => e.1 = path := by
  rw [List.filter_filter]
  apply List.filter_congr
  intro e _
  by_cases heq : e.1 = path <;> simp [heq, h]

section Grouped

variable {grouped entries : List (String × Int)}
  (hmem : ∀ path, path ∈ grouped.map (·.1) ↔ path ∈ entries.map (·.1))
  (hsum : ∀ g ∈ grouped, g.2 = Tally.sumOf entries g.1)

include hsum in
/-- Each of the groups of a name is a sum over some entries of that name. -/
theorem amounts_of_grouped (name : String) :
    (grouped.filter fun g => Path.lastSegment g.1 = name).map (·.2) =
      ((grouped.map (·.1)).filter fun path => Path.lastSegment path = name).map fun path =>
        (((entries.filter fun e => Path.lastSegment e.1 = name).filter
          fun e => e.1 = path).map (·.2)).sum := by
  have hpaths : (grouped.map (·.1)).filter (fun path => Path.lastSegment path = name) =
      (grouped.filter fun g => Path.lastSegment g.1 = name).map (·.1) := by
    simp only [List.filter_map, Function.comp_def]
  rw [hpaths, List.map_map]
  apply List.map_congr_left
  intro g hg
  obtain ⟨hg, hname⟩ := List.mem_filter.mp hg
  rw [decide_eq_true_eq] at hname
  rw [Function.comp_apply, filter_name_path hname, hsum g hg, Tally.sumOf]

include hmem hsum

theorem sumOf_of_grouped (hnodup : (grouped.map (·.1)).Nodup) (name : String) :
    Tally.sumOf (grouped.map named) name = Tally.sumOf (entries.map named) name := by
  rw [sumOf_map_named, sumOf_map_named, amounts_of_grouped hsum]
  apply sum_sum_filter (hnodup.filter _) Prod.fst Prod.snd
  intro e he
  obtain ⟨he, hname⟩ := List.mem_filter.mp he
  exact List.mem_filter.mpr ⟨(hmem e.1).mpr (List.mem_map_of_mem he), hname⟩

/-- Amounts that were summed up by path before sum up as the single amounts do. -/
theorem sums_of_grouped (hnodup : (grouped.map (·.1)).Nodup) :
    (ofEntries grouped).Sums (entries.map named) := by
  refine (sums_ofEntries grouped).congr (fun name => ?_) (sumOf_of_grouped hmem hsum hnodup)
  have hnames : ∀ es : List (String × Int), name ∈ (es.map named).map (·.1) ↔
      ∃ path ∈ es.map (·.1), Path.lastSegment path = name := by
    simp [named]
  simp only [hnames, hmem]

end Grouped

end Breakdown

end Daybook
