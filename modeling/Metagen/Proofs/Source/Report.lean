import Metagen.Source.Problem
import Mathlib.Data.List.TakeWhile

/-! What a report keeps. It counts every problem, and keeps all of them until it is full. -/

namespace Metagen

variable {r : Report}

namespace Report

/-- All problems are kept, as far as there is room. -/
def Counted (r : Report) : Prop := r.kept.length = min r.total maxProblems

theorem counted_empty : Counted {} := rfl

/-- One more problem is kept as long as there is room, and is counted in any case. -/
theorem Counted.push (h : r.Counted) (p : Problem) : (r.push p).Counted := by
  unfold Counted at h ⊢
  unfold Report.push
  split
  next hRoom =>
    simp only [List.length_append, List.length_singleton]
    omega
  next hFull =>
    simp only
    omega

/-- Problems are kept behind those that are there, as far as there is room. -/
theorem kept_foldl_push (h : r.kept.length ≤ maxProblems) (ps : List Problem) :
    (ps.foldl .push r).kept = (r.kept ++ ps).take maxProblems := by
  induction ps generalizing r with
  | nil => rw [List.foldl_nil, List.append_nil, List.take_of_length_le h]
  | cons p ps ih =>
      rw [List.foldl_cons]
      by_cases hRoom : r.kept.length < maxProblems
      · have hPush : (r.push p).kept = r.kept ++ [p] := if_pos hRoom
        rw [ih (by rw [hPush, List.length_append]; exact hRoom), hPush, List.append_assoc,
          List.singleton_append]
      · have hPush : (r.push p).kept = r.kept := if_neg hRoom
        have hFull : r.kept.length = maxProblems := by omega
        rw [ih (by rw [hPush]; exact h), hPush, ← hFull, List.take_left, List.take_left]

theorem Counted.length_kept_le (h : r.Counted) : r.kept.length ≤ maxProblems :=
  h.trans_le (Nat.min_le_right _ _)

/-- Nothing is lost as long as there is room. -/
theorem Counted.length_kept (h : r.Counted) (hRoom : r.total ≤ maxProblems) :
    r.kept.length = r.total := h.trans (Nat.min_eq_left hRoom)

/-- What is kept has been kept before or is the problem that is added. -/
theorem mem_kept_push {p q : Problem} (h : q ∈ (r.push p).kept) : q ∈ r.kept ∨ q = p := by
  unfold Report.push at h
  split at h
  · simpa using h
  · exact .inl h

end Report

namespace Position

variable {a b c : Position}

theorem before_iff :
    a.before b = true ↔ a.line < b.line ∨ a.line = b.line ∧ a.column < b.column := by
  simp [before]

theorem before_trans (h : a.before b = true) (h' : b.before c = true) : a.before c = true := by
  rw [before_iff] at h h' ⊢
  omega

/-- What is before one position is before any that is not before that one. -/
theorem before_of_not_before (h : a.before b = true) (h' : c.before b = false) :
    a.before c = true := by
  rw [← Bool.not_eq_true, before_iff] at h'
  rw [before_iff] at h ⊢
  omega

end Position

namespace Report

/-- A problem that starts before those that were found before it, and not after those that were
found after it. -/
structure IsFirst (p : Problem) (before after : List Problem) : Prop where
  before : ∀ q ∈ before, p.span.start.before q.span.start = true
  after : ∀ q ∈ after, q.span.start.before p.span.start = false

/-- The one that starts first is chosen among the best one so far and those that follow. -/
theorem foldl_earlier {choose : Option Problem → Problem → Option Problem}
    (hChoose : ∀ best p, choose (some best) p =
      if p.span.start.before best.span.start then some p else some best)
    (best : Problem) (ps : List Problem) :
    ∃ p before after, ps.foldl choose (some best) = some p ∧
      best :: ps = before ++ p :: after ∧ IsFirst p before after := by
  induction ps generalizing best with
  | nil => exact ⟨best, [], [], rfl, rfl, nofun, nofun⟩
  | cons q ps ih =>
      rw [List.foldl_cons, hChoose]
      by_cases hEarlier : q.span.start.before best.span.start = true
      · rw [if_pos hEarlier]
        obtain ⟨p, before, after, hFold, hSplit, hFirst⟩ := ih q
        have hBest : p.span.start.before best.span.start = true := by
          cases before with
          | nil =>
              obtain ⟨rfl, -⟩ := List.cons.inj hSplit
              exact hEarlier
          | cons b before =>
              obtain ⟨rfl, -⟩ := List.cons.inj hSplit
              exact Position.before_trans (hFirst.before q List.mem_cons_self) hEarlier
        refine ⟨p, best :: before, after, hFold, congrArg _ hSplit, ?_, hFirst.after⟩
        exact List.forall_mem_cons.2 ⟨hBest, hFirst.before⟩
      · rw [if_neg hEarlier]
        obtain ⟨p, before, after, hFold, hSplit, hFirst⟩ := ih best
        have hLater : q.span.start.before best.span.start = false := by simpa using hEarlier
        cases before with
        | nil =>
            obtain ⟨rfl, rfl⟩ := List.cons.inj hSplit
            exact ⟨best, [], q :: ps, hFold, rfl, nofun,
              List.forall_mem_cons.2 ⟨hLater, hFirst.after⟩⟩
        | cons b before =>
            obtain ⟨rfl, rfl⟩ := List.cons.inj hSplit
            have hBest := hFirst.before best List.mem_cons_self
            refine ⟨p, best :: q :: before, after, hFold, rfl, ?_, hFirst.after⟩
            rw [List.forall_mem_cons, List.forall_mem_cons]
            exact ⟨hBest, Position.before_of_not_before hBest hLater,
              (List.forall_mem_cons.1 hFirst.before).2⟩

/-- Unless nothing is kept, the problem that starts first is found. -/
theorem exists_first (h : r.kept ≠ []) :
    ∃ p before after, r.first? = some p ∧ r.kept = before ++ p :: after ∧
      IsFirst p before after := by
  obtain ⟨best, ps, hKept⟩ := List.exists_cons_of_ne_nil h
  unfold first?
  rw [hKept]
  exact foldl_earlier (fun _ _ => rfl) best ps

end Report

end Metagen
