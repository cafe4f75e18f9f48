import Daybook.Proofs.Dashboard.Part
import Daybook.Proofs.Dashboard.Run
import Mathlib.Data.List.Perm.Basic

/-! # The fetches of a dashboard at work

An invariant ties every fetch of a session, wherever it is on its way, to the view that issued it. It
holds after every step of every run. -/

namespace Daybook

/-! ## Where a fetch can be -/

namespace Session

variable {s : Session} {z : Zone} {f : PaneFetch}

/-- The view of a pane. -/
abbrev view (s : Session) (p : Pane) : View Range Chart :=
  s.dashboard.views.get p

/-- The fetch is one of the session's. -/
def Known (s : Session) (f : PaneFetch) : Prop :=
  f ∈ s.issued ∨ (∃ q ∈ s.requests, q.fetch = f) ∨ ∃ result, (f, result) ∈ s.answers

/-- The fetch has not started, has no answer, or its answer has not reached the view. -/
def Pending (s : Session) (f : PaneFetch) : Prop :=
  f ∈ s.issued ∨ (∃ q ∈ s.requests, q.fetch = f ∧ q.reply = none) ∨
    ∃ result, (f, result) ∈ s.answers

/-- The fetch has ended with a result: its range has no bounds, or a request for just the bounds of
its range was answered. -/
def Ended (s : Session) (f : PaneFetch) (result : Except FetchError Chart) : Prop :=
  (∃ e, f.range.bounds s.dashboard.zone = .error e ∧ result = .error (.range e)) ∨
    ∃ q ∈ s.requests, q.fetch = f ∧ f.range.bounds s.dashboard.zone = .ok q.bounds ∧
      q.reply = some result

/-- No other fetch of the pane was issued as late as this one. -/
def Newest (s : Session) (f : PaneFetch) : Prop :=
  ∀ g, s.Known g → g.pane = f.pane → g ≠ f → g.generation < f.generation

/-- What the view of a pane with a range shows is what a fetch brings. -/
def ShowsFetch (s : Session) (f : PaneFetch) : Prop :=
  (s.view f.pane).state = .loading ∧ s.Pending f ∨
    ∃ result, (s.view f.pane).state = .ofResult result ∧ s.Ended f result

/-! ## The invariant -/

/-- Every fetch carries the range of its view as long as it carries its generation, and every view
shows what its current fetch has brought. -/
structure Consistent (z : Zone) (s : Session) : Prop where
  zone_eq : s.dashboard.zone = z
  generation_le : ∀ f, s.Known f → f.generation ≤ (s.view f.pane).generation
  active_eq : ∀ f, s.Known f → f.generation = (s.view f.pane).generation →
    (s.view f.pane).active = some f.range
  /-- No fetch is issued or requested twice. -/
  nodup : (s.issued ++ s.requests.map (·.fetch)).Nodup
  bounds_eq : ∀ q ∈ s.requests, q.fetch.range.bounds z = .ok q.bounds
  ended : ∀ f result, (f, result) ∈ s.answers → s.Ended f result
  idle : ∀ p, (s.view p).active = none → (s.view p).state = .idle
  shows : ∀ p r, (s.view p).active = some r → s.ShowsFetch ⟨p, r, (s.view p).generation⟩

theorem consistent_new (z : Zone) (days : ActiveDays) :
    Consistent z { dashboard := { zone := z, days } } where
  zone_eq := rfl
  generation_le f h := by simp [Known] at h
  active_eq f h := by simp [Known] at h
  nodup := by simp
  bounds_eq := by simp
  ended := by simp
  idle p _ := by simp [view]
  shows p r h := by simp [view] at h

namespace Consistent

/-- The fetch with the range and the generation of a view is the newest of its pane. -/
theorem newest (h : s.Consistent z) {p : Pane} {r : Range} (hr : (s.view p).active = some r) :
    s.Newest ⟨p, r, (s.view p).generation⟩ := by
  rintro ⟨pane, range, generation⟩ hg rfl hne
  refine Nat.lt_of_le_of_ne (h.generation_le _ hg) fun hgeneration => hne ?_
  have hactive := h.active_eq _ hg hgeneration
  simp only [hr, Option.some.injEq] at hactive hgeneration
  rw [hactive, hgeneration]

/-- A view without a range has no current fetch. -/
theorem generation_ne (h : s.Consistent z) (hf : s.Known f)
    (hnone : (s.view f.pane).active = none) : f.generation ≠ (s.view f.pane).generation := by
  intro heq
  have := h.active_eq f hf heq
  simp [hnone] at this

end Consistent

theorem Ended.of_requests {t : Session} {result : Except FetchError Chart} (h : s.Ended f result)
    (hzone : t.dashboard.zone = s.dashboard.zone)
    (hsub : ∀ q ∈ s.requests, q.reply ≠ none → q ∈ t.requests) : t.Ended f result := by
  rcases h with ⟨e, hbounds, hresult⟩ | ⟨q, hq, hf, hbounds, hreply⟩
  · exact .inl ⟨e, hzone ▸ hbounds, hresult⟩
  · exact .inr ⟨q, hsub q hq (by simp [hreply]), hf, hzone ▸ hbounds, hreply⟩

/-- A step of fetches that leaves all views alone keeps the invariant if it only moves fetches on. -/
theorem Consistent.of_dashboard_eq {t : Session} (h : s.Consistent z)
    (hdashboard : t.dashboard = s.dashboard) (hknown : ∀ f, t.Known f → s.Known f)
    (hpending : ∀ f, s.Pending f → t.Pending f)
    (hsub : ∀ q ∈ s.requests, q.reply ≠ none → q ∈ t.requests)
    (hnodup : (t.issued ++ t.requests.map (·.fetch)).Nodup)
    (hbounds : ∀ q ∈ t.requests, q.fetch.range.bounds z = .ok q.bounds)
    (hended : ∀ f result, (f, result) ∈ t.answers → (f, result) ∉ s.answers → t.Ended f result) :
    t.Consistent z := by
  have hview : ∀ p, t.view p = s.view p := fun p => by rw [view, hdashboard]
  have hmono : ∀ f result, s.Ended f result → t.Ended f result :=
    fun f result he => he.of_requests (by rw [hdashboard]) hsub
  refine ⟨hdashboard ▸ h.zone_eq, ?_, ?_, hnodup, hbounds, ?_, ?_, ?_⟩
  · intro f hf
    rw [hview]
    exact h.generation_le f (hknown f hf)
  · intro f hf
    rw [hview]
    exact h.active_eq f (hknown f hf)
  · intro f result hmem
    by_cases hold : (f, result) ∈ s.answers
    · exact hmono f result (h.ended f result hold)
    · exact hended f result hmem hold
  · intro p
    rw [hview]
    exact h.idle p
  · intro p r hr
    rw [hview] at hr ⊢
    rcases h.shows p r hr with ⟨hstate, hp⟩ | ⟨result, hstate, he⟩
    · exact .inl ⟨by rw [hview]; exact hstate, hpending _ hp⟩
    · exact .inr ⟨result, by rw [hview]; exact hstate, hmono _ _ he⟩

/-! ## A selection -/

theorem select_of_ok {r : Range} {b : Bounds} (hb : r.bounds s.dashboard.zone = .ok b) :
    s.select r = ({ s with
      dashboard := { s.dashboard with
        range := some r
        layout := some (r.layout s.dashboard.zone)
        views := .ofFn fun p => (s.dashboard.aim r p).1 }
      issued := s.issued ++ s.dashboard.issues r }, .ok ()) := by
  rw [select, Dashboard.select_of_ok hb]
  rfl

/-- What an accepted selection does: it aims all views at the range and issues their fetches. -/
structure Accepts (s : Session) (r : Range) (t : Session) : Prop where
  zone_eq : t.dashboard.zone = s.dashboard.zone
  view_eq : ∀ p, t.view p = (s.dashboard.aim r p).1
  issued_eq : t.issued = s.issued ++ s.dashboard.issues r
  requests_eq : t.requests = s.requests
  answers_eq : t.answers = s.answers

theorem accepts_select {r : Range} {b : Bounds} (hb : r.bounds s.dashboard.zone = .ok b) :
    s.Accepts r (s.select r).1 := by
  rw [select_of_ok hb]
  exact ⟨rfl, fun p => Panes.get_ofFn _ p, rfl, rfl, rfl⟩

namespace Accepts

variable {t : Session} {r : Range}

theorem known (ht : s.Accepts r t) (hf : t.Known f) : s.Known f ∨ f ∈ s.dashboard.issues r := by
  rw [Known, ht.issued_eq, ht.requests_eq, ht.answers_eq] at hf
  rcases hf with hf | hf
  · rcases List.mem_append.mp hf with hf | hf
    · exact .inl (.inl hf)
    · exact .inr hf
  · exact .inl (.inr hf)

theorem pending (ht : s.Accepts r t) (hf : s.Pending f) : t.Pending f := by
  rw [Pending, ht.issued_eq, ht.requests_eq, ht.answers_eq]
  rcases hf with hf | hf
  · exact .inl (List.mem_append_left _ hf)
  · exact .inr hf

theorem pending_of_mem_issues (ht : s.Accepts r t) (hf : f ∈ s.dashboard.issues r) :
    t.Pending f := by
  rw [Pending, ht.issued_eq]
  exact .inl (List.mem_append_right _ hf)

theorem ended (ht : s.Accepts r t) {result : Except FetchError Chart} (hf : s.Ended f result) :
    t.Ended f result :=
  hf.of_requests ht.zone_eq fun _ hq _ => ht.requests_eq ▸ hq

theorem generation_le (h : s.Consistent z) (ht : s.Accepts r t) (hf : t.Known f) :
    f.generation ≤ (t.view f.pane).generation := by
  rw [ht.view_eq]
  rcases ht.known hf with hf | hf
  · exact Nat.le_trans (h.generation_le f hf) (s.dashboard.generation_le_aim r f.pane)
  · rw [Dashboard.aim_of_mem_issues hf, (Dashboard.mem_issues.mp hf).2.2]
    exact Nat.le_refl _

theorem active_eq (h : s.Consistent z) (ht : s.Accepts r t) (hf : t.Known f) :
    f.generation = (t.view f.pane).generation → (t.view f.pane).active = some f.range := by
  rw [ht.view_eq]
  rcases ht.known hf with hf | hf
  · have hle := h.generation_le f hf
    rcases s.dashboard.aim_cases r f.pane with ⟨-, hp⟩ | ⟨q, -, -, hp⟩ | ⟨q, -, hp, -⟩ <;> rw [hp]
    · exact fun heq => absurd (heq ▸ hle) (Nat.not_succ_le_self _)
    · exact h.active_eq f hf
    · exact fun heq => absurd (heq ▸ hle) (Nat.not_succ_le_self _)
  · rw [Dashboard.aim_of_mem_issues hf]
    exact fun _ => rfl

/-- An issued fetch is newer than every fetch of its pane that is known. -/
theorem not_known_of_mem_issues (h : s.Consistent z) (hf : f ∈ s.dashboard.issues r) :
    ¬s.Known f := by
  intro hold
  have hle := h.generation_le f hold
  have hnew := (Dashboard.mem_issues.mp hf).2.2
  rw [view] at hle
  omega

theorem nodup (h : s.Consistent z) (ht : s.Accepts r t) :
    (t.issued ++ t.requests.map (·.fetch)).Nodup := by
  have hperm : (s.issued ++ s.dashboard.issues r ++ s.requests.map (·.fetch)).Perm
      (s.dashboard.issues r ++ (s.issued ++ s.requests.map (·.fetch))) := by
    rw [← List.append_assoc]
    exact List.perm_append_comm.append_right _
  rw [ht.issued_eq, ht.requests_eq]
  apply hperm.symm.nodup
  apply List.nodup_append'.mpr
  refine ⟨s.dashboard.nodup_issues r, h.nodup, ?_⟩
  intro f hf hold
  apply not_known_of_mem_issues h hf
  rcases List.mem_append.mp hold with hold | hold
  · exact .inl hold
  · exact .inr (.inl (List.mem_map.mp hold))

theorem idle (h : s.Consistent z) (ht : s.Accepts r t) (p : Pane) :
    (t.view p).active = none → (t.view p).state = .idle := by
  rw [ht.view_eq]
  rcases s.dashboard.aim_cases r p with ⟨-, hp⟩ | ⟨q, -, -, hp⟩ | ⟨q, -, hp, -⟩ <;> rw [hp]
  · exact fun _ => rfl
  · exact h.idle p
  · exact fun hnone => absurd hnone (by simp [View.start])

/-- A view that keeps its range keeps its fetch, and any other one waits for the fetch that it has
just issued. -/
theorem shows (h : s.Consistent z) (ht : s.Accepts r t) {p : Pane} {q : Range}
    (hq : (t.view p).active = some q) : t.ShowsFetch ⟨p, q, (t.view p).generation⟩ := by
  rw [ShowsFetch]
  rw [ht.view_eq] at hq ⊢
  rcases s.dashboard.aim_cases r p with ⟨-, hp⟩ | ⟨q', -, -, hp⟩ | ⟨q', -, hp, hissue⟩ <;>
    rw [hp] at hq ⊢
  · exact absurd hq (by simp [View.clear, View.start])
  · rcases h.shows p q hq with ⟨hloading, hpend⟩ | ⟨result, hresult, hend⟩
    · exact .inl ⟨hloading, ht.pending hpend⟩
    · exact .inr ⟨result, hresult, ht.ended hend⟩
  · obtain rfl : q' = q := by simpa [View.start] using hq
    exact .inl ⟨rfl, ht.pending_of_mem_issues hissue⟩

end Accepts

theorem Consistent.select (h : s.Consistent z) (r : Range) : (s.select r).1.Consistent z := by
  cases hb : r.bounds s.dashboard.zone with
  | error e => rwa [select_of_error hb]
  | ok b =>
    have ht := accepts_select hb
    refine ⟨ht.zone_eq.trans h.zone_eq, fun f hf => ht.generation_le h hf,
      fun f hf => ht.active_eq h hf, ht.nodup h, ?_, ?_, ht.idle h, fun p q hq => ht.shows h hq⟩
    · rw [ht.requests_eq]
      exact h.bounds_eq
    · intro f result hf
      rw [ht.answers_eq] at hf
      exact ht.ended (h.ended f result hf)

theorem Consistent.pick (h : s.Consistent z) (start stop : Option Instant) :
    (s.step (.pick start stop)).Consistent z := by
  rw [step_pick]
  split
  · exact h.select _
  · exact h

/-! ## A fetch that starts -/

theorem launch_of_ok {index : Nat} {b : Bounds} (hf : s.issued[index]? = some f)
    (hb : f.range.bounds s.dashboard.zone = .ok b) :
    s.launch index = { s with
      issued := s.issued.eraseIdx index
      requests := s.requests ++ [{ fetch := f, bounds := b }] } := by
  simp only [launch, hf, startOne, hb]

theorem launch_of_error {index : Nat} {e : RangeError} (hf : s.issued[index]? = some f)
    (he : f.range.bounds s.dashboard.zone = .error e) :
    s.launch index = { s with
      issued := s.issued.eraseIdx index
      answers := s.answers ++ [(f, .error (.range e))] } := by
  simp only [launch, hf, startOne, he]

theorem launch_of_none {index : Nat} (hf : s.issued[index]? = none) : s.launch index = s := by
  simp only [launch, hf]

theorem perm_eraseIdx {α : Type} {l : List α} {i : Nat} {a : α} (hi : l[i]? = some a) :
    l.Perm (a :: l.eraseIdx i) := by
  obtain ⟨hlt, rfl⟩ := List.getElem?_eq_some_iff.mp hi
  exact (List.getElem_cons_eraseIdx_perm hlt).symm

theorem eq_or_mem_eraseIdx {α : Type} {l : List α} {i : Nat} {a b : α} (hi : l[i]? = some a)
    (hb : b ∈ l) : b = a ∨ b ∈ l.eraseIdx i :=
  List.mem_cons.mp ((perm_eraseIdx hi).subset hb)

/-- A fetch that starts becomes a request. -/
theorem Consistent.launch_of_ok (h : s.Consistent z) {index : Nat} {b : Bounds}
    (hf : s.issued[index]? = some f) (hb : f.range.bounds s.dashboard.zone = .ok b) :
    (s.launch index).Consistent z := by
  rw [Session.launch_of_ok hf hb]
  refine h.of_dashboard_eq rfl ?known ?pending ?replied ?nodup ?bounds ?ended
  case known =>
    rintro g (hg | ⟨q, hq, rfl⟩ | hg)
    · exact .inl (List.mem_of_mem_eraseIdx hg)
    · rcases List.mem_append.mp hq with hq | hq
      · exact .inr (.inl ⟨q, hq, rfl⟩)
      · rw [List.mem_singleton.mp hq]
        exact .inl (List.mem_of_getElem? hf)
    · exact .inr (.inr hg)
  case pending =>
    rintro g (hg | ⟨q, hq, hg⟩ | hg)
    · rcases eq_or_mem_eraseIdx hf hg with rfl | hg
      · exact .inr (.inl ⟨_, List.mem_append_right _ (List.mem_singleton_self _), rfl, rfl⟩)
      · exact .inl hg
    · exact .inr (.inl ⟨q, List.mem_append_left _ hq, hg⟩)
    · exact .inr (.inr hg)
  case replied => exact fun q hq _ => List.mem_append_left _ hq
  case nodup =>
    have hperm := (perm_eraseIdx hf).append_right (s.requests.map (·.fetch))
    apply (List.Perm.nodup_iff ?_).mp (hperm.nodup h.nodup)
    simp only [List.map_append, List.map_cons, List.map_nil, ← List.append_assoc,
      List.cons_append]
    exact (List.perm_append_singleton _ _).symm
  case bounds =>
    intro q hq
    rcases List.mem_append.mp hq with hq | hq
    · exact h.bounds_eq q hq
    · rw [List.mem_singleton.mp hq]
      exact h.zone_eq ▸ hb
  case ended => exact fun g result hg hold => absurd hg hold

/-- A fetch without bounds ends as soon as it starts. -/
theorem Consistent.launch_of_error (h : s.Consistent z) {index : Nat} {e : RangeError}
    (hf : s.issued[index]? = some f) (he : f.range.bounds s.dashboard.zone = .error e) :
    (s.launch index).Consistent z := by
  rw [Session.launch_of_error hf he]
  refine h.of_dashboard_eq rfl ?known ?pending ?replied ?nodup h.bounds_eq ?ended
  case known =>
    rintro g (hg | hg | ⟨result, hg⟩)
    · exact .inl (List.mem_of_mem_eraseIdx hg)
    · exact .inr (.inl hg)
    · rcases List.mem_append.mp hg with hg | hg
      · exact .inr (.inr ⟨result, hg⟩)
      · obtain ⟨rfl, rfl⟩ := Prod.mk.inj (List.mem_singleton.mp hg)
        exact .inl (List.mem_of_getElem? hf)
  case pending =>
    rintro g (hg | hg | ⟨result, hg⟩)
    · rcases eq_or_mem_eraseIdx hf hg with rfl | hg
      · exact .inr (.inr ⟨_, List.mem_append_right _ (List.mem_singleton_self _)⟩)
      · exact .inl hg
    · exact .inr (.inl hg)
    · exact .inr (.inr ⟨result, List.mem_append_left _ hg⟩)
  case replied => exact fun q hq _ => hq
  case nodup => exact h.nodup.sublist ((List.eraseIdx_sublist _ _).append_right _)
  case ended =>
    intro g result hg hold
    rcases List.mem_append.mp hg with hg | hg
    · exact absurd hg hold
    · obtain ⟨rfl, rfl⟩ := Prod.mk.inj (List.mem_singleton.mp hg)
      exact .inl ⟨e, he, rfl⟩

theorem Consistent.launch (h : s.Consistent z) (index : Nat) : (s.launch index).Consistent z := by
  cases hf : s.issued[index]? with
  | none => rwa [launch_of_none hf]
  | some f =>
    cases hb : f.range.bounds s.dashboard.zone with
    | ok b => exact h.launch_of_ok hf hb
    | error e => exact h.launch_of_error hf hb

/-! ## A request that is answered -/

theorem answer_of_waiting {id : Nat} {b : Bounds} (hq : s.requests[id]? = some ⟨f, b, none⟩)
    (result : Except FetchError Chart) :
    (s.answer id result).1 = { s with
      requests := s.requests.set id ⟨f, b, some result⟩
      answers := s.answers ++ [(f, result)] } := by
  simp only [answer, hq]

/-- Only a request that waits can be answered. -/
theorem answer_cases (s : Session) (id : Nat) (result : Except FetchError Chart) :
    (∃ f b, s.requests[id]? = some ⟨f, b, none⟩) ∨ (s.answer id result).1 = s := by
  simp only [answer]
  split
  · next f b hq => exact .inl ⟨f, b, hq⟩
  · exact .inr rfl

/-- An answer changes the request that it is for and no other one. -/
theorem mem_set_of_ne {requests : List PaneRequest} {id : Nat} {old new q : PaneRequest}
    (hold : requests[id]? = some old) (hq : q ∈ requests) (hne : q ≠ old) :
    q ∈ requests.set id new := by
  obtain ⟨i, hi⟩ := List.mem_iff_getElem?.mp hq
  have hid : id ≠ i := by
    rintro rfl
    exact hne (Option.some.inj (hi.symm.trans hold))
  exact List.mem_iff_getElem?.mpr ⟨i, by rw [List.getElem?_set_ne hid, hi]⟩

theorem map_fetch_set {requests : List PaneRequest} {id : Nat} {old new : PaneRequest}
    (hold : requests[id]? = some old) (hfetch : new.fetch = old.fetch) :
    (requests.set id new).map (·.fetch) = requests.map (·.fetch) := by
  refine List.ext_getElem? fun i => ?_
  rw [List.getElem?_map, List.getElem?_map, List.getElem?_set]
  by_cases hi : id = i
  · subst hi
    obtain ⟨hlt, rfl⟩ := List.getElem?_eq_some_iff.mp hold
    simp [hlt, hfetch]
  · simp [hi]

theorem Consistent.answer (h : s.Consistent z) (id : Nat) (result : Except FetchError Chart) :
    (s.answer id result).1.Consistent z := by
  rcases answer_cases s id result with ⟨f, b, hq⟩ | heq
  · have hmem : (⟨f, b, none⟩ : PaneRequest) ∈ s.requests := List.mem_of_getElem? hq
    have hnew : (⟨f, b, some result⟩ : PaneRequest) ∈
        s.requests.set id ⟨f, b, some result⟩ :=
      List.mem_set (List.getElem?_eq_some_iff.mp hq).1 _
    rw [answer_of_waiting hq]
    refine h.of_dashboard_eq rfl ?known ?pending ?replied ?nodup ?bounds ?ended
    case known =>
      rintro g (hg | ⟨q, hqs, rfl⟩ | ⟨result', hg⟩)
      · exact .inl hg
      · rcases List.mem_or_eq_of_mem_set hqs with hqs | rfl
        · exact .inr (.inl ⟨q, hqs, rfl⟩)
        · exact .inr (.inl ⟨_, hmem, rfl⟩)
      · rcases List.mem_append.mp hg with hg | hg
        · exact .inr (.inr ⟨result', hg⟩)
        · obtain ⟨rfl, rfl⟩ := Prod.mk.inj (List.mem_singleton.mp hg)
          exact .inr (.inl ⟨_, hmem, rfl⟩)
    case pending =>
      rintro g (hg | ⟨q, hqs, rfl, hreply⟩ | ⟨result', hg⟩)
      · exact .inl hg
      · by_cases hold : q = ⟨f, b, none⟩
        · subst hold
          exact .inr (.inr ⟨result, List.mem_append_right _ (List.mem_singleton_self _)⟩)
        · exact .inr (.inl ⟨q, mem_set_of_ne hq hqs hold, rfl, hreply⟩)
      · exact .inr (.inr ⟨result', List.mem_append_left _ hg⟩)
    case replied =>
      intro q hqs hreply
      apply mem_set_of_ne hq hqs
      rintro rfl
      exact hreply rfl
    case nodup =>
      have hmap : (s.requests.set id ⟨f, b, some result⟩).map (·.fetch) =
          s.requests.map (·.fetch) := map_fetch_set hq rfl
      rw [hmap]
      exact h.nodup
    case bounds =>
      intro q hqs
      rcases List.mem_or_eq_of_mem_set hqs with hqs | rfl
      · exact h.bounds_eq q hqs
      · exact h.bounds_eq ⟨f, b, none⟩ hmem
    case ended =>
      intro g result' hg hold
      rcases List.mem_append.mp hg with hg | hg
      · exact absurd hg hold
      · obtain ⟨rfl, rfl⟩ := Prod.mk.inj (List.mem_singleton.mp hg)
        exact .inr ⟨_, hnew, rfl, h.zone_eq ▸ h.bounds_eq _ hmem, rfl⟩
  · rwa [heq]

/-! ## An answer that reaches its view -/

theorem publish_of_some {index : Nat} {result : Except FetchError Chart}
    (ha : s.answers[index]? = some (f, result)) :
    s.publish index = { s with
      dashboard := s.dashboard.publish f result
      answers := s.answers.eraseIdx index } := by
  simp only [publish, ha]

theorem publish_of_none {index : Nat} (ha : s.answers[index]? = none) : s.publish index = s := by
  simp only [publish, ha]

/-- What the answer of a fetch does when it reaches its view: the view takes or drops it, and nothing
else is left to do for the fetch. -/
structure Publishes (s : Session) (f : PaneFetch) (result : Except FetchError Chart)
    (t : Session) : Prop where
  mem : (f, result) ∈ s.answers
  zone_eq : t.dashboard.zone = s.dashboard.zone
  view_eq : ∀ p, t.view p =
    if p = f.pane then (s.view p).publish f.generation result else s.view p
  issued_eq : t.issued = s.issued
  requests_eq : t.requests = s.requests
  answers_subset : t.answers ⊆ s.answers
  eq_or_mem : ∀ a ∈ s.answers, a = (f, result) ∨ a ∈ t.answers

theorem publishes_publish {index : Nat} {result : Except FetchError Chart}
    (ha : s.answers[index]? = some (f, result)) : s.Publishes f result (s.publish index) := by
  rw [publish_of_some ha]
  exact {
    mem := List.mem_of_getElem? ha
    zone_eq := rfl
    view_eq := fun p => by simp [view, Dashboard.publish]
    issued_eq := rfl
    requests_eq := rfl
    answers_subset := List.eraseIdx_subset
    eq_or_mem := fun a h => eq_or_mem_eraseIdx ha h }

namespace Publishes

variable {t : Session} {result : Except FetchError Chart}

theorem active_eq (ht : s.Publishes f result t) (p : Pane) :
    (t.view p).active = (s.view p).active := by
  rw [ht.view_eq]
  split <;> simp

theorem generation_eq (ht : s.Publishes f result t) (p : Pane) :
    (t.view p).generation = (s.view p).generation := by
  rw [ht.view_eq]
  split <;> simp

theorem known (ht : s.Publishes f result t) {g : PaneFetch} (hg : t.Known g) : s.Known g := by
  rw [Known, ht.issued_eq, ht.requests_eq] at hg
  rcases hg with hg | hg | ⟨result', hg⟩
  · exact .inl hg
  · exact .inr (.inl hg)
  · exact .inr (.inr ⟨result', ht.answers_subset hg⟩)

theorem ended (ht : s.Publishes f result t) {g : PaneFetch} {result' : Except FetchError Chart}
    (hg : s.Ended g result') : t.Ended g result' :=
  hg.of_requests ht.zone_eq fun _ hq _ => ht.requests_eq ▸ hq

theorem pending (ht : s.Publishes f result t) {g : PaneFetch} (hg : s.Pending g) (hne : g ≠ f) :
    t.Pending g := by
  rw [Pending, ht.issued_eq, ht.requests_eq]
  rcases hg with hg | hg | ⟨result', hg⟩
  · exact .inl hg
  · exact .inr (.inl hg)
  · rcases ht.eq_or_mem _ hg with heq | hg
    · exact absurd (Prod.mk.inj heq).1 hne
    · exact .inr (.inr ⟨result', hg⟩)

theorem idle (h : s.Consistent z) (ht : s.Publishes f result t) {p : Pane}
    (hnone : (t.view p).active = none) : (t.view p).state = .idle := by
  rw [ht.active_eq] at hnone
  rw [ht.view_eq]
  split
  · next hp =>
    subst hp
    rw [View.publish_of_ne (h.generation_ne (.inr (.inr ⟨result, ht.mem⟩)) hnone)]
    exact h.idle _ hnone
  · exact h.idle p hnone

/-- An answer that is not of the current fetch of a view changes nothing in it. -/
theorem state_eq (h : s.Consistent z) (ht : s.Publishes f result t) {p : Pane} {r : Range}
    (hr : (s.view p).active = some r) (hne : f ≠ ⟨p, r, (s.view p).generation⟩) :
    (t.view p).state = (s.view p).state := by
  rw [ht.view_eq]
  split
  · next hp =>
    subst hp
    rw [View.publish_of_ne]
    intro hg
    have hrange := h.active_eq f (.inr (.inr ⟨result, ht.mem⟩)) hg
    rw [hr, Option.some.injEq] at hrange
    apply hne
    rw [hrange, ← hg]
  · rfl

/-- The answer of the current fetch of a view shows in it. -/
theorem state_of_current (ht : s.Publishes f result t)
    (hg : f.generation = (s.view f.pane).generation) : (t.view f.pane).state = .ofResult result := by
  simp [ht.view_eq, View.publish, hg]

theorem shows (h : s.Consistent z) (ht : s.Publishes f result t) {p : Pane} {r : Range}
    (hr : (t.view p).active = some r) : t.ShowsFetch ⟨p, r, (t.view p).generation⟩ := by
  rw [ht.active_eq] at hr
  rw [ht.generation_eq]
  by_cases hcurrent : f = ⟨p, r, (s.view p).generation⟩
  · -- The answer is of the current fetch, so the view takes it.
    subst hcurrent
    exact .inr ⟨result, ht.state_of_current rfl, ht.ended (h.ended _ result ht.mem)⟩
  · have hsame := ht.state_eq h hr hcurrent
    rcases h.shows p r hr with ⟨hstate, hp⟩ | ⟨result', hstate, he⟩
    · exact .inl ⟨hsame.trans hstate, ht.pending hp (Ne.symm hcurrent)⟩
    · exact .inr ⟨result', hsame.trans hstate, ht.ended he⟩

end Publishes

theorem Consistent.publish (h : s.Consistent z) (index : Nat) :
    (s.publish index).Consistent z := by
  cases ha : s.answers[index]? with
  | none => rwa [publish_of_none ha]
  | some a =>
    have ht := publishes_publish ha
    refine ⟨ht.zone_eq.trans h.zone_eq, ?_, ?_, ?_, ?_, ?_, fun p => ht.idle h,
      fun p r hr => ht.shows h hr⟩
    · intro g hg
      rw [ht.generation_eq]
      exact h.generation_le g (ht.known hg)
    · intro g hg
      rw [ht.generation_eq, ht.active_eq]
      exact h.active_eq g (ht.known hg)
    · rw [ht.issued_eq, ht.requests_eq]
      exact h.nodup
    · rw [ht.requests_eq]
      exact h.bounds_eq
    · intro g result hg
      exact ht.ended (h.ended g result (ht.answers_subset hg))

/-! ## Any step and any run -/

theorem Consistent.step (h : s.Consistent z) (e : Event) : (s.step e).Consistent z := by
  cases e with
  | select range => exact h.select range
  | pick start stop => exact h.pick start stop
  | launch index => exact h.launch index
  | answer id result => exact h.answer id result
  | publish index => exact h.publish index

theorem Consistent.stepAll (h : s.Consistent z) (events : List Event) :
    (s.stepAll events).Consistent z :=
  stepAll_induction (fun _ e h => h.step e) h events

theorem consistent_after (z : Zone) (events : List Event) : (after z events).Consistent z :=
  (consistent_new z {}).stepAll events

end Session

end Daybook
