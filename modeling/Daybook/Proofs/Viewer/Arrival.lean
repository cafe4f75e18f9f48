import Daybook.Proofs.Viewer.Remote

/-! # Where calls arrive

Whatever address a source was given, as long as it has no query and no fragment of its own: a call
reaches the route that it is meant for, with the query that it is meant to have, or no route at all. So
two bridges that would answer the call alike are alike to the caller. -/

namespace Daybook

open Http

/-- The route that a call is meant for. -/
def Call.route : Call → Bridge.Route
  | records _ => .select
  | usages _ => .durationByExe
  | activeDays => .activeDates
  | config => .config

namespace Call

variable {path : String} {route : Bridge.Route}

theorem ofPath?_path (call : Call) : Bridge.Route.ofPath? call.path = some call.route := by
  cases call <;> rfl

/-- No known path ends in another one. -/
theorem path_eq_of_suffix {call : Call} (hpath : Bridge.Route.ofPath? path = some route)
    (h : call.path.toList <:+ path.toList) : path = call.path := by
  have hknown : path ∈ ["/health", "/select", "/duration_by_exe", "/active_dates", "/config"] := by
    revert hpath
    rw [Bridge.Route.ofPath?]
    grind
  have hall : ∀ p ∈ ["/health", "/select", "/duration_by_exe", "/active_dates", "/config"],
      ∀ q ∈ ["/select", "/duration_by_exe", "/active_dates", "/config"],
      q.toList <:+ p.toList → p = q := by
    decide
  exact hall path hknown call.path (by cases call <;> simp [Call.path]) h

end Call

namespace Remote

variable {r : Remote}

/-- The end of an address that starts with a slash ends with the path of the call. -/
theorem path_suffix_of_suffix {base : List Char} {call : Call} {path : List Char}
    (h : path <:+ base ++ call.path.toList) (hslash : path.head? = some '/') :
    call.path.toList <:+ path := by
  rcases List.suffix_or_suffix_of_suffix h (List.suffix_append base _) with hshort | hlong
  · obtain ⟨rest, hpath, -, -, hrest⟩ := exists_path call
    rw [hpath, List.suffix_cons_iff] at hshort
    rcases hshort with rfl | hshort
    · exact hpath ▸ List.suffix_refl _
    · exact absurd (hshort.subset (List.mem_of_head? hslash)) hrest
  · exact hlong

theorem ne_of_mem_base_append (hbase : ∀ c ∈ r.base.toList, c ≠ '?' ∧ c ≠ '#') (call : Call) :
    ∀ c ∈ r.base.toList ++ call.path.toList, c ≠ '?' ∧ c ≠ '#' := by
  obtain ⟨rest, hpath, hclean, hmark, -⟩ := exists_path call
  intro c hc
  rcases List.mem_append.mp hc with hc | hc
  · exact hbase c hc
  · rw [hpath] at hc
    refine ⟨?_, (hclean c hc).2⟩
    rintro rfl
    simp [hmark] at hc

/-- A call arrives with its query, and if its path is known it is its own. -/
theorem exists_path_of_arrival (hbase : ∀ c ∈ r.base.toList, c ≠ '?' ∧ c ≠ '#') {call : Call}
    {target : String} (h : Url.target? (r.url call) = some target) :
    ∃ path, Target.ofResource target.toList = ⟨path, r.queryText call⟩ ∧
      ∀ route, Bridge.Route.ofPath? path = some route → path = call.path := by
  have hfront := ne_of_mem_base_append hbase call
  have hlong : 7 ≤ (r.base.toList ++ call.path.toList).length := by
    rw [List.length_append]
    have hname : 7 ≤ call.path.toList.length := by cases call <;> simp [Call.path]
    omega
  obtain ⟨path, hend, htarget⟩ := Url.ofResource_of_target?
    (toList_url (fun h => (hbase _ h).1 rfl) call) hlong hfront (r.isClean_queryText call) h
  refine ⟨_, htarget, fun route hroute => ?_⟩
  refine Call.path_eq_of_suffix hroute ?_
  rcases hend with rfl | ⟨hsuffix, hslash⟩
  · have hnone : Bridge.Route.ofPath? (String.ofList (['/'].flatMap Url.escape)) = none := by
      decide
    rw [hnone] at hroute
    contradiction
  · obtain ⟨rest, hpath, hclean, -⟩ := exists_path call
    obtain ⟨front, rfl⟩ := path_suffix_of_suffix hsuffix hslash
    rw [String.toList_ofList, Url.escape_append_of_clean front (hpath ▸ hclean)]
    exact List.suffix_append _ _

/-- Bridges that would answer a call alike are alike to the caller, wherever the call arrives. -/
theorem network_url_congr (hbase : ∀ c ∈ r.base.toList, c ≠ '?' ∧ c ≠ '#') {call : Call}
    {b₁ b₂ : Bridge}
    (h : b₁.outcome (r.queryText call) call.route = b₂.outcome (r.queryText call) call.route) :
    b₁.network (r.url call) = b₂.network (r.url call) := by
  rw [Bridge.network, Bridge.network]
  cases htarget : Url.target? (r.url call) with
  | none => rfl
  | some target =>
    obtain ⟨path, hpath, hknown⟩ := exists_path_of_arrival hbase htarget
    simp only [hpath]
    cases hroute : Bridge.Route.ofPath? path with
    | none => simp only [Bridge.answer, hroute]
    | some route =>
      obtain rfl := hknown route hroute
      rw [Bridge.answer_get_of_route call.ofPath?_path rfl,
        Bridge.answer_get_of_route call.ofPath?_path rfl, h]

/-- A call that two bridges answer alike has one outcome on both networks. -/
def LeadAlike (r : Remote) (b₁ b₂ : Bridge) (net₁ net₂ : Network) : Prop :=
  ∀ call, b₁.outcome (r.queryText call) call.route = b₂.outcome (r.queryText call) call.route →
    net₁ (r.url call) = net₂ (r.url call)

section LeadAlike

variable (hbase : ∀ c ∈ r.base.toList, c ≠ '?' ∧ c ≠ '#') (b₁ b₂ : Bridge)

include hbase

/-- It does where every address leads to a bridge. -/
theorem leadAlike_network : r.LeadAlike b₁ b₂ b₁.network b₂.network := by
  intro call h
  exact network_url_congr hbase h

/-- It does where there is nothing but a bridge on one socket. -/
theorem leadAlike_networkAt (socket : Net.Socket) :
    r.LeadAlike b₁ b₂ (b₁.networkAt socket) (b₂.networkAt socket) := by
  intro call h
  rw [Bridge.networkAt, Bridge.networkAt, network_url_congr hbase h]

end LeadAlike

end Remote

end Daybook
