import Metagen.Directive.Resolution
import Mathlib.Data.Fintype.Pigeonhole
import Mathlib.Data.List.Perm.Basic
import Mathlib.Logic.Relation

/-! Orders of directives by their dependencies, on the numbers of the directives alone. Taking the
first number that nothing left feeds gives the least order there is, and it stops early just when
some numbers wait for a cycle. -/

namespace Metagen.DependencyGraph

variable {g : DependencyGraph}

/-- One directive defines something that the other one imports. -/
def Feeds (g : DependencyGraph) (provider consumer : Nat) : Prop := (provider, consumer) ∈ g.edges

/-- The directive imports from itself through others. -/
def OnCycle (g : DependencyGraph) (i : Nat) : Prop := Relation.TransGen g.Feeds i i

def HasCycle (g : DependencyGraph) : Prop := ∃ i, g.OnCycle i

/-- The directive lies on a cycle, or imports from one that does, directly or through others. -/
def Waits (g : DependencyGraph) (consumer : Nat) : Prop :=
  ∃ i, g.OnCycle i ∧ Relation.ReflTransGen g.Feeds i consumer

theorem OnCycle.waits {i : Nat} (h : g.OnCycle i) : g.Waits i := ⟨i, h, .refl⟩

/-- All numbers below a count, each once, and every provider before its consumers. -/
structure IsOrder (g : DependencyGraph) (count : Nat) (order : List Nat) : Prop where
  perm : order.Perm (List.range count)
  provider_first : ∀ p c, (p, c) ∈ g.edges → order.idxOf p < order.idxOf c

/-- The first order comes first by the numbers where the two part, or there is no such place. -/
def AtMost (first second : List Nat) : Prop := first = second ∨ List.Lex (· < ·) first second

/-- Whatever feeds a number is done when its turn comes. -/
def ReadyOrder (g : DependencyGraph) : List Nat → List Nat → Prop
  | _, [] => True
  | done, i :: rest => (∀ p, g.Feeds p i → p ∈ done) ∧ g.ReadyOrder (done ++ [i]) rest

/-- Something that feeds the number is not done. -/
def Lacks (g : DependencyGraph) (done : List Nat) (i : Nat) : Prop := ∃ p, g.Feeds p i ∧ p ∉ done

/-- Numbers are taken as long as one of them lacks nothing, always the first such number. The last
list holds those that are never taken. -/
inductive Greedy (g : DependencyGraph) : List Nat → List Nat → List Nat → List Nat → Prop where
  | stop {done waiting : List Nat} (stuck : ∀ i ∈ waiting, g.Lacks done i) :
      Greedy g done waiting [] waiting
  | take {done before after order left : List Nat} {i : Nat}
      (passed : ∀ j ∈ before, g.Lacks done j) (ready : ∀ p, g.Feeds p i → p ∈ done)
      (rest : Greedy g (done ++ [i]) (before ++ after) order left) :
      Greedy g done (before ++ i :: after) (i :: order) left

/-- In such an order providers come first. -/
theorem ReadyOrder.idxOf_lt {done order : List Nat} (h : g.ReadyOrder done order) {p c : Nat}
    (hc : c ∈ order) (hFeeds : g.Feeds p c) (hp : p ∉ done) :
    p ∈ order ∧ order.idxOf p < order.idxOf c := by
  induction order generalizing done with
  | nil => cases hc
  | cons i rest ih =>
      obtain ⟨hReady, hRest⟩ := h
      have hci : i ≠ c := by
        rintro rfl
        exact hp (hReady p hFeeds)
      have hcRest : c ∈ rest := (List.mem_cons.1 hc).resolve_left (Ne.symm hci)
      rw [List.idxOf_cons_ne _ hci]
      by_cases hpi : p = i
      · subst hpi
        exact ⟨List.mem_cons_self, by rw [List.idxOf_cons_self]; omega⟩
      · have hDone : p ∉ done ++ [i] := by simp [hp, hpi]
        obtain ⟨hMem, hLess⟩ := ih hRest hcRest hDone
        rw [List.idxOf_cons_ne _ (Ne.symm hpi)]
        exact ⟨List.mem_cons_of_mem _ hMem, by omega⟩

/-- By induction over the path between them: in an order that respects what feeds what, a directive
stands behind all it depends on. -/
theorem ReadyOrder.idxOf_lt_of_transGen {order : List Nat} (h : g.ReadyOrder [] order) {p c : Nat}
    (hc : c ∈ order) (hFeeds : Relation.TransGen g.Feeds p c) :
    p ∈ order ∧ order.idxOf p < order.idxOf c := by
  induction hFeeds with
  | single hStep => exact h.idxOf_lt hc hStep List.not_mem_nil
  | tail _ hStep ih =>
      obtain ⟨hMiddle, hLast⟩ := h.idxOf_lt hc hStep List.not_mem_nil
      obtain ⟨hFirst, hLess⟩ := ih hMiddle
      exact ⟨hFirst, hLess.trans hLast⟩

/-- Nothing that is taken waits for a cycle. -/
theorem ReadyOrder.not_waits {order : List Nat} (h : g.ReadyOrder [] order) {c : Nat}
    (hc : c ∈ order) : ¬ g.Waits c := by
  rintro ⟨i, hCycle, hPath⟩
  have hi : i ∈ order := by
    rcases Relation.reflTransGen_iff_eq_or_transGen.1 hPath with rfl | hPath
    · exact hc
    · exact (h.idxOf_lt_of_transGen hc hPath).1
  exact Nat.lt_irrefl _ (h.idxOf_lt_of_transGen hi hCycle).2

/-- An order without repetitions in which every provider stands before its consumers lets each
directive start when it comes. -/
theorem readyOrder_of_idxOf {done order : List Nat} (hNodup : (done ++ order).Nodup)
    (hFirst : ∀ p c, c ∈ order → g.Feeds p c →
      p ∈ done ++ order ∧ (done ++ order).idxOf p < (done ++ order).idxOf c) :
    g.ReadyOrder done order := by
  induction order generalizing done with
  | nil => trivial
  | cons i rest ih =>
      have hAppend : done ++ i :: rest = (done ++ [i]) ++ rest := by simp
      constructor
      · intro p hFeeds
        obtain ⟨hMem, hLess⟩ := hFirst p i List.mem_cons_self hFeeds
        have hi : i ∉ done := fun hi =>
          (List.nodup_append.1 hNodup).2.2 i hi i List.mem_cons_self rfl
        rw [List.idxOf_append_of_notMem hi, List.idxOf_cons_self, Nat.add_zero] at hLess
        by_contra hp
        rw [List.idxOf_append_of_notMem hp] at hLess
        omega
      · rw [hAppend] at hNodup hFirst
        exact ih hNodup fun p c hc => hFirst p c (List.mem_cons_of_mem _ hc)

/-- In an order that respects the imports each directive finds everything it depends on done when
its turn comes. -/
theorem IsOrder.readyOrder {count : Nat} {order : List Nat} (h : g.IsOrder count order)
    (hBound : ∀ p c, g.Feeds p c → p < count) : g.ReadyOrder [] order := by
  have hNodup : order.Nodup := h.perm.nodup_iff.2 List.nodup_range
  refine @readyOrder_of_idxOf g [] order hNodup fun p c _ hFeeds => ?_
  exact ⟨h.perm.mem_iff.2 (List.mem_range.2 (hBound p c hFeeds)), h.provider_first p c hFeeds⟩

/-- Taking directives greedily only moves them: those that were taken and those that are left are
the ones that waited. -/
theorem Greedy.perm {done waiting order left : List Nat} (h : g.Greedy done waiting order left) :
    (order ++ left).Perm waiting := by
  induction h with
  | stop => exact .refl _
  | take _ _ _ ih => exact (ih.cons _).trans List.perm_middle.symm

/-- Each directive that is taken greedily finds everything it depends on among those taken before
it. -/
theorem Greedy.readyOrder {done waiting order left : List Nat}
    (h : g.Greedy done waiting order left) : g.ReadyOrder done order := by
  induction h with
  | stop => trivial
  | take _ ready _ ih => exact ⟨ready, ih⟩

/-- What is never taken lacks something to the end. -/
theorem Greedy.left_lacks {done waiting order left : List Nat}
    (h : g.Greedy done waiting order left) : ∀ i ∈ left, g.Lacks (done ++ order) i := by
  induction h with
  | stop stuck => simpa using stuck
  | take _ _ _ ih => simpa using ih

/-- No order in which every number is ready comes before the one that is found: where the two part,
the other one takes a number that was not ready, or a later one. -/
theorem Greedy.le_of_readyOrder {done waiting order left : List Nat}
    (h : g.Greedy done waiting order left) (hLeft : left = []) (hSorted : waiting.Pairwise (· < ·))
    {other : List Nat} (hOther : g.ReadyOrder done other) (hPerm : other.Perm waiting) :
    AtMost order other := by
  induction h generalizing other with
  | stop =>
      subst hLeft
      exact .inl (List.perm_nil.1 hPerm).symm
  | @take done before after order left i passed ready _ ih =>
      cases other with
      | nil => exact absurd (List.nil_perm.1 hPerm) (by simp)
      | cons j others =>
          obtain ⟨hReady, hOthers⟩ := hOther
          have hBefore : j ∉ before := by
            intro hj
            obtain ⟨p, hFeeds, hp⟩ := passed j hj
            exact hp (hReady p hFeeds)
          have hMem : j ∈ before ++ i :: after := hPerm.mem_iff.1 List.mem_cons_self
          rcases List.mem_cons.1 ((List.mem_append.1 hMem).resolve_left hBefore) with rfl | hAfter
          · have hRest : others.Perm (before ++ after) :=
              List.Perm.cons_inv (hPerm.trans List.perm_middle)
            have hSub : (before ++ after).Pairwise (· < ·) :=
              hSorted.sublist ((List.sublist_cons_self _ _).append_left _)
            rcases ih hLeft hSub hOthers hRest with hEq | hLex
            · exact .inl (congrArg _ hEq)
            · exact .inr (.cons hLex)
          · have hLess : i < j :=
              (List.pairwise_cons.1 (List.pairwise_append.1 hSorted).2.1).1 j hAfter
            exact .inr (.rel hLess)

/-- Where everything is fed from inside, everything waits for a cycle: going back from provider to
provider must come to some number twice. -/
theorem waits_of_fed_inside {left : List Nat} (h : ∀ i ∈ left, ∃ p ∈ left, g.Feeds p i) {i : Nat}
    (hi : i ∈ left) : g.Waits i := by
  choose! back hBack hFeeds using h
  have hMem : ∀ k, back^[k] i ∈ left := by
    intro k
    induction k with
    | zero => exact hi
    | succ k ih =>
        rw [Function.iterate_succ_apply']
        exact hBack _ ih
  have hPath : ∀ k extra, Relation.ReflTransGen g.Feeds (back^[k + extra] i) (back^[k] i) := by
    intro k extra
    induction extra with
    | zero => exact .refl
    | succ extra ih =>
        rw [← Nat.add_assoc, Function.iterate_succ_apply']
        exact .head (hFeeds _ (hMem _)) ih
  obtain ⟨a, b, hNe, hEq⟩ := Finite.exists_ne_map_eq_of_infinite
    fun k : Nat => (⟨back^[k] i, List.mem_toFinset.2 (hMem k)⟩ : left.toFinset)
  have hSame : back^[a] i = back^[b] i := congrArg Subtype.val hEq
  wlog hLess : a < b generalizing a b
  · exact this b a (Ne.symm hNe) hEq.symm hSame.symm (by omega)
  obtain ⟨extra, rfl⟩ := Nat.exists_eq_add_of_lt hLess
  have hCycle : g.OnCycle (back^[a] i) := by
    have hLast := hPath (a + 1) extra
    rw [show a + 1 + extra = a + extra + 1 by omega, ← hSame] at hLast
    refine Relation.TransGen.tail' hLast ?_
    rw [Function.iterate_succ_apply']
    exact hFeeds _ (hMem a)
  have hFrom := hPath 0 a
  rw [Nat.zero_add] at hFrom
  exact ⟨_, hCycle, hFrom⟩

/-- Starting with nothing done, exactly those numbers are never taken that wait for a cycle. -/
theorem Greedy.mem_left_iff {count : Nat} {order left : List Nat}
    (h : g.Greedy [] (List.range count) order left) (hBound : ∀ p c, g.Feeds p c → p < count)
    (i : Nat) : i ∈ left ↔ i < count ∧ g.Waits i := by
  have hMem : ∀ j, j < count ↔ j ∈ order ∨ j ∈ left := by
    intro j
    rw [← List.mem_append, h.perm.mem_iff, List.mem_range]
  constructor
  · intro hi
    refine ⟨(hMem i).2 (.inr hi), waits_of_fed_inside (fun j hj => ?_) hi⟩
    obtain ⟨p, hFeeds, hp⟩ := h.left_lacks j hj
    exact ⟨p, ((hMem p).1 (hBound p j hFeeds)).resolve_left hp, hFeeds⟩
  · rintro ⟨hi, hWaits⟩
    exact ((hMem i).1 hi).resolve_left fun hOrder => h.readyOrder.not_waits hOrder hWaits

/-- When nothing is left, the numbers are an order, and the least one. -/
theorem Greedy.isLeast {count : Nat} {order : List Nat}
    (h : g.Greedy [] (List.range count) order [])
    (hBound : ∀ p c, g.Feeds p c → p < count ∧ c < count) :
    g.IsOrder count order ∧ ∀ other, g.IsOrder count other → AtMost order other := by
  have hPerm : order.Perm (List.range count) := by simpa using h.perm
  refine ⟨⟨hPerm, fun p c hFeeds => ?_⟩, fun other hOther => ?_⟩
  · have hc : c ∈ order := hPerm.mem_iff.2 (List.mem_range.2 (hBound p c hFeeds).2)
    exact (h.readyOrder.idxOf_lt hc hFeeds List.not_mem_nil).2
  · have hReady := hOther.readyOrder fun p c hFeeds => (hBound p c hFeeds).1
    exact h.le_of_readyOrder rfl List.pairwise_lt_range hReady hOther.perm

end Metagen.DependencyGraph
