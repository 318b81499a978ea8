import Metagen.Proofs.Emission.Requests

/-! Directives do not see each other. Whatever an emitter has been asked before, finished or not, a
directive that starts anew is answered in the same way and writes the same text, up to the first
overload of a macro that another directive has overloaded. -/

namespace Metagen.Emission

open Emitter

namespace Emitter

/-- All of an emitter but who overloads what. -/
def unowned (e : Emitter) : Emitter := { e with owners := [] }

/-- What an emitter answers to some requests, and all else that can be told from it after each. -/
def trace : Emitter → List Request → List (Answer × Emitter)
  | _, [] => []
  | e, r :: rest => ((r.perform e).1, (r.perform e).2.unowned) :: (r.perform e).2.trace rest

/-- Entering an overload is the same for all owners. -/
theorem unowned_overloading (e : Emitter) (name : String) (group : OverloadGroup) :
    (e.withLedger (e.ledger.overloading name group)).unowned =
      { e.unowned with overloads := e.unowned.overloads ++ [(name, group)] } := rfl

/-- A new start leaves nothing but who overloads what. -/
theorem unowned_reset {e f : Emitter} (h : e.receipt = f.receipt) (owner : String)
    (target : Option Target) : (e.reset owner target).unowned = (f.reset owner target).unowned := by
  simp [unowned, reset, h]

end Emitter

/-- A blind change may be made before or after one leaves out who overloads what. -/
theorem Blind.unowned {change : Emitter → Emitter} (h : Blind change) (e : Emitter) :
    (change e).unowned = change e.unowned := by
  have hOwners : (change e).unowned =
      (change e).withLedger { (change e).ledger with owners := [] } := rfl
  rw [hOwners, h.ledger, ← h.withLedger]
  rfl

/-- The request is refused because another directive overloads the macro. -/
def Request.OwnedElsewhere (r : Request) (e : Emitter) : Prop :=
  ∃ d owner, r = define d ∧ (r.perform e).1 = .refused (.overloadOwned d.name owner)

/-- Two emitters give the same answer, and differ in nothing then but in who overloads what. -/
def SameStep (r : Request) (e f : Emitter) : Prop :=
  (r.perform e).1 = (r.perform f).1 ∧ (r.perform e).2.unowned = (r.perform f).2.unowned

namespace Request

variable {e f : Emitter}

/-- A request that ignores the ledger gives both emitters the same answer and keeps them the same
but for owners. -/
theorem sameStep_of_ignoresLedger {r : Request} (hBlind : r.IgnoresLedger)
    (h : e.unowned = f.unowned) :
    SameStep r e f := by
  obtain ⟨answer, change, hChange, hPerform⟩ := hBlind
  rw [SameStep, hPerform, hPerform, hChange.unowned, hChange.unowned, h]
  exact ⟨rfl, rfl⟩

/-- Two emitters that are the same but for owners finish with the same file. -/
theorem sameStep_finishAt (h : e.unowned = f.unowned) (time : String) :
    SameStep (finishAt time) e f := by
  have hFields := h
  simp only [unowned, Emitter.mk.injEq] at hFields
  constructor
  · simp only [perform, fst_finishAt, hFields]
  · simp only [perform, snd_finishAt, unowned, hFields]

/-- An overload that nobody else owns comes to the same, whatever others own. -/
theorem sameStep_define {d : Definition} (hOverload : d.IsOverload) (h : e.unowned = f.unowned) :
    SameStep (define d) e f ∨ (define d).OwnedElsewhere e ∨ (define d).OwnedElsewhere f := by
  have hLookup : e.overloads.lookup d.name = f.overloads.lookup d.name :=
    congrArg (fun e => e.overloads.lookup d.name) h
  have hDefined : Emission.Blind (·.defineMacro d.variant d.restParams d.expansion d.doWhile) :=
    .after fun e => e.defineMacro_eq_after _ _ _ _
  have hTaken : ∀ {e : Emitter} (owner : String),
      ((define d).perform e).1 = .refused (.overloadOwned d.name owner) →
        (define d).OwnedElsewhere e :=
    fun owner hAnswer => ⟨d, owner, rfl, hAnswer⟩
  have hLeft := hOverload.defineOutcome e
  have hRight := hOverload.defineOutcome f
  generalize hE : (define d).perform e = left at hLeft
  generalize hF : (define d).perform f = right at hRight
  rw [SameStep, hE, hF]
  cases hLeft with
  | owned owner _ _ => exact .inr (.inl (hTaken owner (by rw [hE])))
  | mismatch other _ hGroup hOther =>
      cases hRight with
      | owned owner _ _ => exact .inr (.inr (hTaken owner (by rw [hF])))
      | mismatch _ _ _ _ => exact .inl ⟨rfl, h⟩
      | again _ hGroup' => simp_all
      | first _ hGroup' => simp_all
  | again _ hGroup =>
      cases hRight with
      | owned owner _ _ => exact .inr (.inr (hTaken owner (by rw [hF])))
      | mismatch _ _ hGroup' _ => simp_all
      | again _ _ => exact .inl ⟨rfl, by rw [hDefined.unowned, hDefined.unowned, h]⟩
      | first _ hGroup' => simp_all
  | first _ hGroup =>
      cases hRight with
      | owned owner _ _ => exact .inr (.inr (hTaken owner (by rw [hF])))
      | mismatch _ _ hGroup' _ => simp_all
      | again _ hGroup' => simp_all
      | first _ _ =>
          refine .inl ⟨rfl, ?_⟩
          rw [hDefined.unowned, hDefined.unowned, unowned_overloading, unowned_overloading, h]

/-- Emitters that differ only in who overloads what take the same step, or one of them refuses an
overload for this. -/
theorem sameStep (r : Request) (h : e.unowned = f.unowned) :
    SameStep r e f ∨ r.OwnedElsewhere e ∨ r.OwnedElsewhere f := by
  rcases r.cases with hBlind | ⟨owner, target, rfl⟩ | ⟨time, rfl⟩ | ⟨d, rfl, hOverload⟩
  · exact .inl (sameStep_of_ignoresLedger hBlind h)
  · exact .inl ⟨rfl, unowned_reset (congrArg Emitter.receipt h) owner target⟩
  · exact .inl (sameStep_finishAt h time)
  · exact sameStep_define hOverload h

end Request

/-- Two emitters do the same, until one of them refuses an overload because another directive has
overloaded the macro. -/
def SameRun (e f : Emitter) (requests : List Request) : Prop :=
  e.trace requests = f.trace requests ∨ ∃ before r behind, requests = before ++ r :: behind ∧
    e.trace before = f.trace before ∧
      (r.OwnedElsewhere (e.asked before) ∨ r.OwnedElsewhere (f.asked before))

/-- Emitters that are the same but for who overloads what answer the same until a macro is owned by
someone else. -/
theorem sameRun_of_unowned {e f : Emitter} (h : e.unowned = f.unowned) (requests : List Request) :
    SameRun e f requests := by
  induction requests generalizing e f with
  | nil => exact .inl rfl
  | cons r rest ih =>
      rcases r.sameStep h with ⟨hAnswer, hState⟩ | hTaken
      · rcases ih hState with hRest | ⟨before, r', behind, rfl, hBefore, hTaken⟩
        · exact .inl (by rw [trace, trace, hAnswer, hState, hRest])
        · refine .inr ⟨r :: before, r', behind, rfl, ?_, hTaken⟩
          rw [trace, trace, hAnswer, hState, hBefore]
      · exact .inr ⟨[], r, rest, rfl, rfl, hTaken⟩

/-- Nothing that emitters were asked before a directive starts makes a difference to it, but the
overloads of other directives. -/
theorem sameRun_reset (e f : Emitter) (hReceipt : e.receipt = f.receipt)
    (past past' : List Request) (owner : String) (target : Option Target)
    (requests : List Request) :
    SameRun ((e.asked past).reset owner target) ((f.asked past').reset owner target) requests := by
  apply sameRun_of_unowned
  apply unowned_reset
  rw [receipt_asked, receipt_asked, hReceipt]

/-- A directive that is abandoned inside a definition and a section leaves nothing to the next. -/
theorem sameRun_reset_abandoned : ({} : Emitter).receipt = ({} : Emitter).receipt ∧
    SameRun ((({} : Emitter).asked [.reset "a.c:1" none, .beginSection "// first",
        .enter (.headed "#define X"), .line "x"]).reset "b.c:1" (some ⟨"b.h", "b.c", 1⟩))
      ((({} : Emitter).asked []).reset "b.c:1" (some ⟨"b.h", "b.c", 1⟩))
      [.line "int y;", .finishAt "now"] :=
  ⟨rfl, sameRun_reset {} {} rfl _ _ _ _ _⟩

end Metagen.Emission
