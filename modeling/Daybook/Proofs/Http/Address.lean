import Daybook.Http.Target
import Daybook.Http.Url
import Mathlib.Data.List.TakeWhile

/-! # Addresses

What a client sends for an address is the path and the query in it, and a server cuts them apart at
the first question mark. On a host the path is all that follows; of any other address it is known at
least how it ends. -/

namespace Daybook.Http

namespace Url

/-- The text of a host, perhaps with a port: not empty, and over before any path, query or
fragment. -/
structure IsHost (host : String) : Prop where
  ne_nil : host.toList ≠ []
  not_mem : ∀ c ∈ host.toList, c ≠ '/' ∧ c ≠ '?' ∧ c ≠ '#'

/-- Characters of a path and a query that are sent as they are. -/
def IsClean (text : List Char) : Prop :=
  ∀ c ∈ text, isEscaped c = false ∧ c ≠ '#'

variable {host : String} {resource : List Char}

theorem afterScheme?_http (rest : List Char) :
    afterScheme? ("http://".toList ++ rest) = some rest := by
  have hlower : "http://".toList.map Char.toLower = "http://".toList := by decide
  rw [afterScheme?, List.take_left, hlower, if_pos rfl, List.drop_left]

theorem flatMap_escape (h : IsClean resource) : resource.flatMap escape = resource := by
  induction resource with
  | nil => rfl
  | cons c resource ih =>
    have hc := (h c List.mem_cons_self).1
    rw [List.flatMap_cons, ih fun d hd => h d (List.mem_cons_of_mem _ hd), escape, hc]
    rfl

/-- The path and the query after a host are sent as they are if they are clean. -/
theorem target?_eq (hhost : IsHost host) (h : IsClean ('/' :: resource)) :
    target? (String.ofList ("http://".toList ++ (host.toList ++ '/' :: resource))) =
      some (String.ofList ('/' :: resource)) := by
  have hauthority : authority (host.toList ++ '/' :: resource) = host.toList := by
    refine Text.takeWhile_append_of_head (fun c hc => ?_) (by simp)
    simpa [and_assoc] using hhost.not_mem c hc
  have hclean : ('/' :: resource).takeWhile (· ≠ '#') = '/' :: resource :=
    List.takeWhile_eq_self_iff.mpr fun c hc => by simpa using (h c hc).2
  simp only [target?, String.toList_ofList, afterScheme?_http, Option.bind_eq_bind,
    Option.bind_some, hauthority, if_neg hhost.ne_nil, List.drop_left, hclean, List.head?_cons,
    if_true, flatMap_escape h]
  rfl

end Url

/-- A query as it follows a path. -/
def Url.marked (query : List Char) : List Char :=
  if query = [] then [] else '?' :: query

theorem Url.isClean_marked {query : List Char} (h : IsClean query) : IsClean (marked query) := by
  rw [marked]
  split
  · exact List.forall_mem_nil _
  · exact List.forall_mem_cons.mpr ⟨by decide, h⟩

namespace Target

/-- The path ends at the first question mark, and the query is what follows it. -/
theorem ofResource_marked {path query : List Char} (hne : path ≠ [])
    (hp : ∀ c ∈ path, c ≠ '?' ∧ c ≠ '#') (hq : ∀ c ∈ query, c ≠ '#') :
    ofResource (path ++ Url.marked query) = ⟨String.ofList path, query⟩ := by
  have hbare : (path ++ Url.marked query).takeWhile (· ≠ '#') = path ++ Url.marked query := by
    apply List.takeWhile_eq_self_iff.mpr
    intro c hc
    rcases List.mem_append.mp hc with hc | hc
    · simpa using (hp c hc).2
    · rw [Url.marked] at hc
      split at hc
      · contradiction
      · rcases List.mem_cons.mp hc with rfl | hc
        · decide
        · simpa using hq c hc
  have hpath : ∀ c ∈ path, decide (c ≠ '?') := fun c hc => by simpa using (hp c hc).1
  have hstop : ∀ c ∈ (Url.marked query).head?, ¬decide (c ≠ '?') := by
    rw [Url.marked]
    split <;> simp
  have hdrop : (Url.marked query).drop 1 = query := by
    rw [Url.marked]
    split <;> simp_all
  simp only [ofResource, hbare, Text.takeWhile_append_of_head hpath hstop,
    Text.dropWhile_append_of_head hpath hstop, if_neg hne, hdrop]

end Target

/-! ## Any address without a query of its own -/

namespace Url

variable {url target : String} {front query : List Char}

theorem escape_append_of_clean (front : List Char) {rest : List Char} (h : IsClean rest) :
    (front ++ rest).flatMap escape = front.flatMap escape ++ rest := by
  rw [List.flatMap_append, flatMap_escape h]

/-- No mark that ends a path comes from escaping. -/
theorem ne_of_mem_escape {c d : Char} (hc : c ≠ '?' ∧ c ≠ '#') (hd : d ∈ escape c) :
    d ≠ '?' ∧ d ≠ '#' := by
  have hhex : ∀ n < 16, hexChar n ≠ '?' ∧ hexChar n ≠ '#' := by decide
  rw [escape] at hd
  split at hd
  · obtain ⟨octet, -, hoctet⟩ := List.mem_flatMap.mp hd
    have hlt := octet.toNat_lt
    simp only [escapeOctet, List.mem_cons, List.not_mem_nil, or_false] at hoctet
    rcases hoctet with rfl | rfl | rfl
    · decide
    · exact hhex _ (by omega)
    · exact hhex _ (by omega)
  · rwa [List.mem_singleton.mp hd]

variable (query) in
/-- A server is over before the first slash, or else before the query. -/
theorem exists_path_of_authority (hfront : ∀ c ∈ front, c ≠ '?' ∧ c ≠ '#') :
    ∃ path, path <:+ front ∧ (path = [] ∨ path.head? = some '/') ∧
      (front ++ marked query).drop (authority (front ++ marked query)).length =
        path ++ marked query := by
  have hmark : ∀ c ∈ (marked query).head?, c = '?' := by
    rw [marked]
    split <;> simp [eq_comm]
  by_cases hslash : '/' ∈ front
  · obtain ⟨name, path, rfl, hname⟩ := List.eq_append_cons_of_mem hslash
    have hauthority : authority (name ++ ('/' :: path ++ marked query)) = name := by
      refine Text.takeWhile_append_of_head (fun c hc => ?_) (by simp)
      have hne : c ≠ '/' := fun h => hname (h ▸ hc)
      simpa [hne] using hfront c (List.mem_append_left _ hc)
    refine ⟨'/' :: path, List.suffix_append _ _, .inr rfl, ?_⟩
    rw [List.append_assoc, hauthority, List.drop_left]
  · have hauthority : authority (front ++ marked query) = front := by
      refine Text.takeWhile_append_of_head (fun c hc => ?_) (fun c hc => ?_)
      · have hne : c ≠ '/' := fun h => hslash (h ▸ hc)
        simpa [hne] using hfront c hc
      · simp [hmark c hc]
    refine ⟨[], List.nil_suffix, .inl rfl, ?_⟩
    rw [hauthority, List.drop_left, List.nil_append]

/-- What is sent for an address is the end of it from some slash on, or the query on an empty path. -/
theorem exists_path_of_target? (hurl : url.toList = front ++ marked query)
    (hlong : 7 ≤ front.length) (hfront : ∀ c ∈ front, c ≠ '?' ∧ c ≠ '#') (hquery : IsClean query)
    (h : target? url = some target) :
    ∃ path, (path = ['/'] ∨ path <:+ front ∧ path.head? = some '/') ∧
      target.toList = path.flatMap escape ++ marked query := by
  have htail : ∀ c ∈ front.drop 7, c ≠ '?' ∧ c ≠ '#' := fun c hc =>
    hfront c (List.mem_of_mem_drop hc)
  obtain ⟨path, hsuffix, hpath, hdrop⟩ := exists_path_of_authority query htail
  have hbare : (path ++ marked query).takeWhile (· ≠ '#') = path ++ marked query := by
    refine List.takeWhile_eq_self_iff.mpr fun c hc => ?_
    rcases List.mem_append.mp hc with hc | hc
    · simpa using (htail c (hsuffix.subset hc)).2
    · simpa using (isClean_marked hquery c hc).2
  rw [target?, hurl, Option.bind_eq_bind, Option.bind_eq_some_iff] at h
  obtain ⟨rest, hrest, h⟩ := h
  obtain rfl : front.drop 7 ++ marked query = rest := by
    rw [← List.drop_append_of_le_length hlong]
    rw [afterScheme?] at hrest
    split at hrest
    · exact Option.some.inj hrest
    · contradiction
  split at h
  · contradiction
  · have htarget := congrArg String.toList (Option.some.inj h)
    simp only [hdrop, hbare, String.toList_ofList] at htarget
    rw [← htarget]
    rcases hpath with rfl | hslash
    · have hmark : ([] ++ marked query).head? ≠ some '/' := by
        rw [List.nil_append, marked]
        split <;> simp
      refine ⟨['/'], .inl rfl, ?_⟩
      rw [if_neg hmark]
      exact escape_append_of_clean ['/'] (isClean_marked hquery)
    · have hhead : (path ++ marked query).head? = some '/' := by
        rw [List.head?_append, hslash, Option.some_or]
      refine ⟨path, .inr ⟨hsuffix.trans (List.drop_suffix 7 front), hslash⟩, ?_⟩
      rw [if_pos hhead]
      exact escape_append_of_clean path (isClean_marked hquery)

/-- A server that cuts the path and the query apart finds the escaped path and the query. -/
theorem ofResource_of_target? (hurl : url.toList = front ++ marked query)
    (hlong : 7 ≤ front.length) (hfront : ∀ c ∈ front, c ≠ '?' ∧ c ≠ '#') (hquery : IsClean query)
    (h : target? url = some target) :
    ∃ path, (path = ['/'] ∨ path <:+ front ∧ path.head? = some '/') ∧
      Target.ofResource target.toList = ⟨String.ofList (path.flatMap escape), query⟩ := by
  obtain ⟨path, hend, htarget⟩ := exists_path_of_target? hurl hlong hfront hquery h
  refine ⟨path, hend, ?_⟩
  rw [htarget, Target.ofResource_marked]
  · obtain ⟨tail, rfl⟩ : ∃ tail, path = '/' :: tail := by
      rcases hend with rfl | ⟨-, hslash⟩
      · exact ⟨[], rfl⟩
      · exact List.head?_eq_some_iff.mp hslash
    rw [List.flatMap_cons]
    exact List.append_ne_nil_of_left_ne_nil (by decide) _
  · intro c hc
    obtain ⟨d, hd, hc⟩ := List.mem_flatMap.mp hc
    refine ne_of_mem_escape ?_ hc
    rcases hend with rfl | ⟨hsuffix, -⟩
    · obtain rfl := List.mem_singleton.mp hd
      decide
    · exact hfront d (hsuffix.subset hd)
  · exact fun c hc => (hquery c hc).2

end Url

end Daybook.Http
