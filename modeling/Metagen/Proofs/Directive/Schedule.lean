import Metagen.Directive.Schedule
import Metagen.Proofs.Directive.Order
import Metagen.Proofs.Directive.Resolution

/-! The order of directives against their dependencies. Directives are taken by the names they
import, dependencies tell who defines these names, and both agree once directives are resolved: a
directive is ready just when all that feed it have run. -/

namespace Metagen

namespace Schedule

theorem takeFirst?_eq_none_iff {α : Type} (p : α → Bool) (xs : List α) :
    takeFirst? p xs = none ↔ ∀ x ∈ xs, p x = false := by
  induction xs with
  | nil => simp [takeFirst?]
  | cons x rest ih => cases hx : p x <;> simp [takeFirst?, hx, ih]

/-- The first item that has a property is taken out of its place. -/
theorem parts_of_takeFirst? {α : Type} (p : α → Bool) {xs others : List α} {x : α}
    (h : takeFirst? p xs = some (x, others)) :
    ∃ before after, xs = before ++ x :: after ∧ others = before ++ after ∧ p x = true ∧
      ∀ y ∈ before, p y = false := by
  induction xs generalizing others with
  | nil => cases h
  | cons y rest ih =>
      cases hy : p y with
      | true =>
          rw [takeFirst?, if_pos hy] at h
          cases h
          exact ⟨[], rest, rfl, rfl, hy, by simp⟩
      | false =>
          rw [takeFirst?, if_neg (by simp [hy])] at h
          obtain ⟨⟨z, zs⟩, hFound, hPair⟩ := Option.map_eq_some_iff.1 h
          cases hPair
          obtain ⟨before, after, rfl, rfl, hx, hBefore⟩ := ih hFound
          refine ⟨y :: before, after, rfl, rfl, hx, ?_⟩
          rintro w (_ | ⟨_, hw⟩)
          · exact hy
          · exact hBefore w hw

/-- The names that some directives define, given by their numbers. -/
def namesOf (ds : List Directive) (done : List Nat) : List String :=
  done.flatMap fun i => (ds[i]?.map (·.definedNames)).getD []

/-- A name is available behind some directives exactly if one of them defines it. -/
theorem mem_namesOf_iff (ds : List Directive) (done : List Nat) (name : String) :
    name ∈ namesOf ds done ↔ ∃ i ∈ done, ∃ d, ds[i]? = some d ∧ name ∈ d.definedNames := by
  rw [namesOf, List.mem_flatMap]
  refine exists_congr fun i => and_congr_right fun _ => ?_
  cases ds[i]? <;> simp

theorem namesOf_concat {ds : List Directive} {i : Nat} {d : Directive} (hd : ds[i]? = some d)
    (done : List Nat) : namesOf ds (done ++ [i]) = namesOf ds done ++ d.definedNames := by
  simp [namesOf, hd]

end Schedule

variable {ds after : List Directive} {g : DependencyGraph}

/-- Both ends of an edge are numbers of directives, since the graph is built from positions in the
list. -/
theorem Resolved.feeds_bound (h : Resolved ds after g) {p c : Nat} (hFeeds : g.Feeds p c) :
    p < after.length ∧ c < after.length := by
  obtain ⟨d, e, name, hd, he, -, -⟩ := (h.mem_edges_iff p c).1 hFeeds
  exact ⟨(List.getElem?_eq_some_iff.1 hd).1, (List.getElem?_eq_some_iff.1 he).1⟩

/-- The names that a directive imports are there just when everything that feeds it is done. -/
theorem Resolved.isReady_iff (h : Resolved ds after g) {i : Nat} {d : Directive}
    (hd : after[i]? = some d) (done : List Nat) :
    Schedule.isReady (Schedule.namesOf after done) d = true ↔ ∀ p, g.Feeds p i → p ∈ done := by
  simp only [Schedule.isReady, List.all_eq_true, List.contains_iff_mem]
  constructor
  · intro hNames p hFeeds
    obtain ⟨o, e, name, ho, he, hDefined, hImported⟩ := (h.mem_edges_iff p i).1 hFeeds
    obtain rfl : d = e := Option.some.inj (hd.symm.trans he)
    obtain ⟨q, hq, o', ho', hDefined'⟩ := (Schedule.mem_namesOf_iff _ _ _).1 (hNames name hImported)
    obtain ⟨_, -, hOne⟩ := h.one_provider i d name hd hImported
    rw [(hOne p ⟨o, ho, hDefined⟩).trans (hOne q ⟨o', ho', hDefined'⟩).symm]
    exact hq
  · intro hDone name hImported
    obtain ⟨p, ⟨o, ho, hDefined⟩, -⟩ := h.one_provider i d name hd hImported
    have hFeeds : g.Feeds p i := (h.mem_edges_iff p i).2 ⟨o, d, name, ho, hd, hDefined, hImported⟩
    exact (Schedule.mem_namesOf_iff _ _ _).2 ⟨p, hDone p hFeeds, o, ho, hDefined⟩

/-- A directive is not ready exactly if something that feeds it is not done, as its imports are
defined where the edges come from. -/
theorem Resolved.lacks_iff (h : Resolved ds after g) {i : Nat} {d : Directive}
    (hd : after[i]? = some d) (done : List Nat) :
    Schedule.isReady (Schedule.namesOf after done) d = false ↔ g.Lacks done i := by
  rw [← Bool.not_eq_true, h.isReady_iff hd]
  push Not
  rfl

/-- Directives are arranged by taking the first number that is ready. -/
theorem Resolved.greedy_arrange (h : Resolved ds after g) {done : List Nat}
    {waiting : List (Directive × Nat)}
    (hWaiting : ∀ entry ∈ waiting, after[entry.2]? = some entry.1)
    {order : List Nat} {stuck : List Directive}
    (hRun : Schedule.arrange (Schedule.namesOf after done) waiting = (order, stuck)) :
    ∃ left : List (Directive × Nat), left.Sublist waiting ∧ stuck = left.map (·.1) ∧
      g.Greedy done (waiting.map (·.2)) order (left.map (·.2)) := by
  induction hLength : waiting.length generalizing done waiting order stuck with
  | zero =>
      obtain rfl := List.length_eq_zero_iff.1 hLength
      rw [Schedule.arrange] at hRun
      cases hRun
      exact ⟨[], .refl _, rfl, .stop (by simp)⟩
  | succ n ih =>
      rw [Schedule.arrange] at hRun
      split at hRun
      · next d i others hFound =>
        obtain ⟨before, later, rfl, rfl, hReady, hBefore⟩ := Schedule.parts_of_takeFirst? _ hFound
        have hd : after[i]? = some d := hWaiting (d, i) (by simp)
        have hSub : (before ++ later).Sublist (before ++ (d, i) :: later) :=
          (List.sublist_cons_self _ _).append_left _
        rw [← Schedule.namesOf_concat hd] at hRun
        generalize hRest : Schedule.arrange _ (before ++ later) = result at hRun
        obtain ⟨tail, remaining⟩ := result
        cases hRun
        have hShorter : (before ++ later).length = n := by
          simp only [List.length_append, List.length_cons] at hLength ⊢
          omega
        obtain ⟨left, hLeft, hStuck, hGreedy⟩ :=
          ih (fun entry hEntry => hWaiting entry (hSub.subset hEntry)) hRest hShorter
        refine ⟨left, hLeft.trans hSub, hStuck, ?_⟩
        rw [List.map_append] at hGreedy
        rw [List.map_append, List.map_cons]
        refine .take (fun j hj => ?_) ((h.isReady_iff hd done).1 hReady) hGreedy
        obtain ⟨entry, hEntry, rfl⟩ := List.mem_map.1 hj
        exact (h.lacks_iff (hWaiting entry (by simp [hEntry])) done).1 (hBefore entry hEntry)
      · next hNone =>
        cases hRun
        refine ⟨waiting, .refl _, rfl, .stop fun j hj => ?_⟩
        obtain ⟨entry, hEntry, rfl⟩ := List.mem_map.1 hj
        exact (h.lacks_iff (hWaiting entry hEntry) done).1
          ((Schedule.takeFirst?_eq_none_iff _ _).1 hNone entry hEntry)

/-- A part of a list without repetitions that holds exactly the items with a property. -/
theorem eq_filter_of_sublist {α : Type} {part whole : List α} (hPart : part.Sublist whole)
    (hNodup : whole.Nodup) {p : α → Prop} [DecidablePred p] (hMem : ∀ x ∈ whole, x ∈ part ↔ p x) :
    part = whole.filter p := by
  have hSub : part.Sublist (whole.filter p) := by
    have hFilter := hPart.filter (fun x => decide (p x))
    rwa [List.filter_eq_self.2] at hFilter
    intro x hx
    exact decide_eq_true ((hMem x (hPart.subset hx)).1 hx)
  have hPerm : part.Perm (whole.filter p) := by
    rw [List.perm_ext_iff_of_nodup (hNodup.sublist hPart) (hNodup.sublist List.filter_sublist)]
    intro x
    rw [List.mem_filter, decide_eq_true_eq]
    constructor
    · intro hx
      exact ⟨hPart.subset hx, (hMem x (hPart.subset hx)).1 hx⟩
    · rintro ⟨hx, hp⟩
      exact (hMem x hx).2 hp
  exact hSub.eq_of_length hPerm.length_eq

open Classical in
/-- The directives that a cycle is blamed on: those with a name in the header that wait for one. -/
noncomputable def DependencyGraph.blamed (g : DependencyGraph) (ds : List Directive) :
    List Directive :=
  (ds.zipIdx.filter fun entry => entry.1.isExplicit ∧ g.Waits entry.2).map (·.1)

theorem DependencyGraph.mem_blamed_iff (g : DependencyGraph) (ds : List Directive) (d : Directive) :
    d ∈ g.blamed ds ↔ ∃ i : Nat, ds[i]? = some d ∧ d.isExplicit = true ∧ g.Waits i := by
  simp [blamed, List.mem_zipIdx_iff_getElem?]

/-- Directives are arranged by taking what is ready, and those are left that wait for a cycle. -/
theorem Resolved.arrange_spec (h : Resolved ds after g) {order : List Nat} {stuck : List Directive}
    (hRun : Schedule.arrange [] after.zipIdx = (order, stuck)) :
    ∃ left : List (Directive × Nat), left.Sublist after.zipIdx ∧ stuck = left.map (·.1) ∧
      g.Greedy [] (List.range after.length) order (left.map (·.2)) ∧
      ∀ entry ∈ after.zipIdx, entry ∈ left ↔ g.Waits entry.2 := by
  have hEntry : ∀ entry ∈ after.zipIdx, after[entry.2]? = some entry.1 := by
    rintro ⟨d, i⟩ hEntry
    exact List.mem_zipIdx_iff_getElem?.1 hEntry
  change Schedule.arrange (Schedule.namesOf after []) after.zipIdx = _ at hRun
  obtain ⟨left, hLeft, hStuck, hGreedy⟩ := h.greedy_arrange hEntry hRun
  rw [List.zipIdx_map_snd, ← List.range_eq_range'] at hGreedy
  refine ⟨left, hLeft, hStuck, hGreedy, ?_⟩
  rintro ⟨d, i⟩ hMem
  have hWaits := hGreedy.mem_left_iff (fun p c hFeeds => (h.feeds_bound hFeeds).1) i
  have hd : after[i]? = some d := hEntry _ hMem
  have hNumber : (d, i) ∈ left ↔ i ∈ left.map (·.2) := by
    constructor
    · intro hLeftMem
      exact List.mem_map.2 ⟨(d, i), hLeftMem, rfl⟩
    · intro hi
      obtain ⟨⟨e, j⟩, hLeftMem, rfl⟩ := List.mem_map.1 hi
      obtain rfl : d = e := Option.some.inj (hd.symm.trans (hEntry _ (hLeft.subset hLeftMem)))
      exact hLeftMem
  rw [hNumber, hWaits]
  exact and_iff_right (List.getElem?_eq_some_iff.1 hd).1

/-- A directive on a cycle defines a name, so its header names it. -/
theorem Resolved.isExplicit_of_onCycle (h : Resolved ds after g) {i : Nat} (hCycle : g.OnCycle i) :
    ∃ d, after[i]? = some d ∧ d.isExplicit = true := by
  obtain ⟨c, hFeeds, -⟩ := Relation.TransGen.head'_iff.1 hCycle
  obtain ⟨d, e, name, hd, he, hDefined, -⟩ := (h.mem_edges_iff i c).1 hFeeds
  refine ⟨d, hd, List.any_eq_true.2 ?_⟩
  obtain ⟨decl, hDecl, -⟩ := List.mem_map.1 hDefined
  obtain ⟨hDecl, hKind⟩ := List.mem_filter.1 hDecl
  refine ⟨decl, hDecl, ?_⟩
  cases hk : decl.kind <;> simp_all [DeclKind.isDefinition]

/-- Where there is a cycle somebody is to blame: whatever lies on a cycle defines a name, and so has
a name in its header. -/
theorem Resolved.blamed_ne_nil (h : Resolved ds after g) (hCycle : g.HasCycle) :
    g.blamed after ≠ [] := by
  obtain ⟨i, hCycle⟩ := hCycle
  obtain ⟨d, hd, hExplicit⟩ := h.isExplicit_of_onCycle hCycle
  exact List.ne_nil_of_mem ((g.mem_blamed_iff after d).2 ⟨i, hd, hExplicit, hCycle.waits⟩)

theorem nodup_zipIdx {α : Type} (xs : List α) : xs.zipIdx.Nodup := by
  have hNumbers : (xs.zipIdx.map (·.2)).Nodup := by
    rw [List.zipIdx_map_snd]
    exact List.nodup_range'
  exact hNumbers.of_map _

/-- Nothing is left just when there is no cycle. -/
theorem Resolved.left_eq_nil_iff (h : Resolved ds after g) {left : List (Directive × Nat)}
    (hLeft : left.Sublist after.zipIdx)
    (hWaits : ∀ entry ∈ after.zipIdx, entry ∈ left ↔ g.Waits entry.2) :
    left = [] ↔ ¬ g.HasCycle := by
  constructor
  · rintro rfl ⟨i, hCycle⟩
    obtain ⟨d, hd, -⟩ := h.isExplicit_of_onCycle hCycle
    have hEntry := (hWaits (d, i) (List.mem_zipIdx_iff_getElem?.2 hd)).2 hCycle.waits
    exact List.not_mem_nil hEntry
  · intro hNone
    refine List.eq_nil_iff_forall_not_mem.2 fun entry hEntry => ?_
    obtain ⟨i, hCycle, -⟩ := (hWaits entry (hLeft.subset hEntry)).1 hEntry
    exact hNone ⟨i, hCycle⟩

/-- The directives to blame are those left over that have a name in their header, in the order of
the list. -/
theorem filter_left_eq_blamed {left : List (Directive × Nat)} (hLeft : left.Sublist after.zipIdx)
    (hWaits : ∀ entry ∈ after.zipIdx, entry ∈ left ↔ g.Waits entry.2) :
    (left.map (·.1)).filter (·.isExplicit) = g.blamed after := by
  classical
  rw [eq_filter_of_sublist hLeft (nodup_zipIdx after) hWaits, List.filter_map,
    List.filter_filter, DependencyGraph.blamed]
  refine congrArg _ (List.filter_congr fun entry _ => ?_)
  simp [Bool.decide_and]

/-- What scheduling has found: an order, when nothing is left, or what is left otherwise. -/
theorem Resolved.schedule_spec (h : Resolved ds after g) :
    (∃ order, schedule after = .ok order ∧ ¬ g.HasCycle ∧
        g.Greedy [] (List.range after.length) order []) ∨
      ∃ stuck, schedule after = .error (Schedule.circular stuck) ∧ g.HasCycle ∧
        stuck.filter (·.isExplicit) = g.blamed after := by
  cases hArrange : Schedule.arrange [] after.zipIdx with
  | mk order stuck =>
      obtain ⟨left, hLeft, rfl, hGreedy, hWaits⟩ := h.arrange_spec hArrange
      have hCycle := h.left_eq_nil_iff hLeft hWaits
      have hBlamed := filter_left_eq_blamed hLeft hWaits
      cases left with
      | nil =>
          refine .inl ⟨order, ?_, hCycle.1 rfl, hGreedy⟩
          rw [schedule, hArrange]
          rfl
      | cons entry rest =>
          refine .inr ⟨_, ?_, ?_, hBlamed⟩
          · rw [schedule, hArrange]
            rfl
          · by_contra hNone
            cases hCycle.2 hNone

/-- There is an order exactly if no directive depends on itself: as long as no cycle is left some
directive is ready. -/
theorem Resolved.exists_schedule_iff (h : Resolved ds after g) :
    (∃ order, schedule after = .ok order) ↔ ¬ g.HasCycle := by
  rcases h.schedule_spec with ⟨order, hOk, hNone, -⟩ | ⟨stuck, hError, hCycle, -⟩
  · exact iff_of_true ⟨order, hOk⟩ hNone
  · refine iff_of_false ?_ (not_not_intro hCycle)
    rintro ⟨order, hOk⟩
    rw [hError] at hOk
    cases hOk

/-- The order is one that respects all imports, and the least of these: the first ready directive
always goes first. -/
theorem Resolved.isLeast_of_schedule (h : Resolved ds after g) {order : List Nat}
    (hOrder : schedule after = .ok order) : g.IsOrder after.length order ∧
      ∀ other, g.IsOrder after.length other → DependencyGraph.AtMost order other := by
  rcases h.schedule_spec with ⟨found, hOk, -, hGreedy⟩ | ⟨stuck, hError, -, -⟩
  · rw [hOk] at hOrder
    obtain rfl := Except.ok.inj hOrder
    exact hGreedy.isLeast fun p c => h.feeds_bound
  · rw [hError] at hOrder
    cases hOrder

/-- Where there is no order, the diagnostic shows the headers of the explicit directives that wait
for a cycle, of which there is at least one. -/
theorem Resolved.places_of_schedule (h : Resolved ds after g) {diagnostic : Diagnostic}
    (hFailed : schedule after = .error diagnostic) :
    diagnostic.code = .circularDependency ∧
      diagnostic.places = (g.blamed after).map (fun d => d.place d.headerLine none) ∧
      diagnostic.places ≠ [] := by
  rcases h.schedule_spec with ⟨found, hOk, -, -⟩ | ⟨stuck, hError, hCycle, hBlamed⟩
  · rw [hOk] at hFailed
    cases hFailed
  · rw [hError] at hFailed
    obtain rfl := Except.error.inj hFailed
    rw [Schedule.circular, hBlamed]
    exact ⟨rfl, rfl, fun hNil => h.blamed_ne_nil hCycle (List.map_eq_nil_iff.1 hNil)⟩

/-- Scheduling resolved directives succeeds just when there is no cycle, and then gives the least
order by the dependencies; else it tells the directives that wait for a cycle, and there are some
to tell. -/
theorem schedule_of_resolve (hResolve : resolve ds = .ok (after, g)) :
    ((∃ order, schedule after = .ok order) ↔ ¬ g.HasCycle) ∧
      (∀ order, schedule after = .ok order → g.IsOrder after.length order ∧
        ∀ other, g.IsOrder after.length other → DependencyGraph.AtMost order other) ∧
      ∀ diagnostic, schedule after = .error diagnostic →
        diagnostic.code = .circularDependency ∧
          diagnostic.places = (g.blamed after).map (fun d => d.place d.headerLine none) ∧
          diagnostic.places ≠ [] := by
  obtain ⟨-, h⟩ := resolved_of_resolve hResolve
  refine ⟨h.exists_schedule_iff, fun order hOrder => ?_, fun diagnostic hFailed => ?_⟩
  · exact h.isLeast_of_schedule hOrder
  · exact h.places_of_schedule hFailed

/-- Three linked directives without a cycle have an order, which is the least one that respects the
imports. -/
theorem schedule_of_resolve_linkedSources : ∃ ds rest after g,
    scan "out" linkedSources #[] = .ok ds rest ∧ resolve ds = .ok (after, g) ∧
      after.length = 3 ∧ ((∃ order, schedule after = .ok order) ↔ ¬ g.HasCycle) ∧
      (∀ order, schedule after = .ok order → g.IsOrder after.length order ∧
        ∀ other, g.IsOrder after.length other → DependencyGraph.AtMost order other) ∧
      ∀ diagnostic, schedule after = .error diagnostic →
        diagnostic.code = .circularDependency ∧
          diagnostic.places = (g.blamed after).map (fun d => d.place d.headerLine none) ∧
          diagnostic.places ≠ [] := by
  have hRun : (match scan "out" linkedSources #[] with
      | .ok ds _ => match resolve ds with
        | .ok (after, _) => after.length == 3
        | .error _ => false
      | .error _ _ => false) = true := by decide +kernel
  cases hScan : scan "out" linkedSources #[] with
  | error diagnostic rest =>
      rw [hScan] at hRun
      cases hRun
  | ok ds rest =>
      rw [hScan] at hRun
      dsimp only at hRun
      cases hResolve : resolve ds with
      | error diagnostic =>
          rw [hResolve] at hRun
          cases hRun
      | ok result =>
          obtain ⟨after, g⟩ := result
          rw [hResolve] at hRun
          exact ⟨ds, rest, after, g, rfl, hResolve, eq_of_beq hRun, schedule_of_resolve hResolve⟩

end Metagen
