import Metagen.Proofs.Emission.Headers
import Metagen.Proofs.Emission.Runs

/-! Where chains of the preprocessor are closed. The closing line belongs to the last scope of the
chain, so that it is written just when that scope is entered. Conditions and bodies before it that
fail leave the chain without one. -/

namespace Metagen.Emission

open Emitter

variable {Failure Result Item : Type}

/-- A scope of conditional compilation that nothing is written behind. -/
def Scope.unclosed (header : String) : Scope := { header := some header, closing := some "" }

namespace Showing

/-- The branches of a preprocessor chain from number `index` on, with nothing behind any of them. -/
def openBranches (condition : Item → Showing Failure String) (body : Item → Showing Failure Unit) :
    Nat → List Item → Showing Failure Unit
  | _, [] => done ()
  | index, item :: rest =>
    (condition item).andThen fun text =>
      ((body item).within (.scope (.unclosed (conditionLine index text)))).andThen fun _ =>
        openBranches condition body (index + 1) rest

/-- A preprocessor chain without its closing line. -/
def openChain (items : List Item) (condition : Item → Showing Failure String)
    (body : Item → Showing Failure Unit) : Option (Showing Failure Unit) → Showing Failure Unit
  | none => openBranches condition body 0 items
  | some elseBody => (openBranches condition body 0 items).andThen fun _ =>
      if items.isEmpty then elseBody else elseBody.within (.scope (.unclosed "#else"))

/-- The last scope of a chain is entered: that of the else branch if there is one, and otherwise
that of the last item. -/
def entersLast (condition : Item → Showing Failure String) (body : Item → Showing Failure Unit)
    (hasElse : Bool) : List Item → Ledger → Bool
  | [], _ => hasElse
  | item :: rest, l =>
    let tested := condition item l
    let inner := body item tested.ledger
    tested.result.isOk && (rest.isEmpty && !hasElse ||
      inner.result.isOk && entersLast condition body hasElse rest inner.ledger)

end Showing

/-- The first layout is the second one, with a closing line behind it if it is closed. -/
structure Layout.ClosedBy (closed : Bool) (layout unclosed : Layout) : Prop where
  lines : ∀ continued indent, layout.lines continued indent =
    unclosed.lines continued indent ++
      if closed then [⟨unclosed.ends continued, indent, "#endif"⟩] else []
  ends : ∀ continued, layout.ends continued = unclosed.ends continued

namespace Layout.ClosedBy

variable {closed : Bool} {layout unclosed : Layout}

theorem refl (layout : Layout) : ClosedBy false layout layout where
  lines _ _ := (List.append_nil _).symm
  ends _ := rfl

/-- What stands before a layout has no part in whether the layout is closed. -/
theorem behind (first : Layout) (h : ClosedBy closed layout unclosed) :
    ClosedBy closed (.both first layout) (.both first unclosed) where
  lines continued indent := by
    rw [Layout.lines, h.lines, ← List.append_assoc]
    rfl
  ends continued := h.ends (first.ends continued)

/-- A layout with nothing behind it is closed just as it is without that. -/
theorem before_nothing (h : ClosedBy closed layout unclosed) :
    ClosedBy closed (.both layout (.plain [])) (.both unclosed (.plain [])) where
  lines continued indent := by
    have hNothing (first : Layout) :
        (first.both (.plain [])).lines continued indent = first.lines continued indent :=
      List.append_nil _
    rw [hNothing, hNothing, h.lines]
    rfl
  ends continued := h.ends continued

/-- A scope of conditional compilation ends in a closing line of its own, unless the chain leaves it
out. -/
theorem scope {header : String} (h : leadingKeyword header ∈ ["#if", "#elif", "#else"])
    {closing : Option String} (hClosing : (closing <|> some "#endif") = some "#endif")
    (inner : Layout) :
    ClosedBy true (.scope { header := some header, closing } inner)
      (.scope (.unclosed header) inner) where
  lines continued indent := by
    have hSame (other : Option String) :
        (Layout.scope { header := some header, closing := other } inner).lines continued indent =
          Line.fragment continued indent header ++ (inner.lines continued (indent + 1) ++
            Line.optional (inner.ends continued) indent (other <|> some "#endif")) := by
      rw [Layout.lines, Scope.entering_of_conditional other h, Scope.side_of_conditional other h]
      simp [ExitSide.level, ExitSide.leaving]
    have hEnds : (Layout.scope (.unclosed header) inner).ends continued = inner.ends continued := by
      rw [Layout.ends, Scope.unclosed, Scope.side_of_conditional _ h]
      simp
    rw [Scope.unclosed, hSame, hSame, ← Scope.unclosed, hEnds, hClosing]
    simp only [List.append_assoc]
    rfl
  ends continued := by
    rw [Layout.ends, Layout.ends, Scope.unclosed, Scope.side_of_conditional _ h,
      Scope.side_of_conditional _ h]

end Layout.ClosedBy

/-- Both come to the same, but for a closing line behind the first one if it is closed. -/
structure Shown.ClosedBy (closed : Bool) (shown unclosed : Shown Failure Result) : Prop where
  layout : Layout.ClosedBy closed shown.layout unclosed.layout
  result : shown.result = unclosed.result
  ledger : shown.ledger = unclosed.ledger

namespace Showing

theorem andThen_of_ok {first : Showing Failure Result} {second : Result → Showing Failure Unit}
    {l : Ledger} {a : Result} (h : (first l).result = .ok a) :
    first.andThen second l = { second a (first l).ledger with
      layout := .both (first l).layout (second a (first l).ledger).layout } := by
  unfold andThen
  rw [h]

theorem andThen_of_error {first : Showing Failure Result} {second : Result → Showing Failure Unit}
    {l : Ledger} {failure : Failure} (h : (first l).result = .error failure) :
    first.andThen second l = ⟨(first l).layout, .error failure, (first l).ledger⟩ := by
  unfold andThen
  rw [h]

end Showing

namespace Shown.ClosedBy

open Showing

variable {condition : Item → Showing Failure String} {body : Item → Showing Failure Unit}

theorem refl (shown : Shown Failure Result) : ClosedBy false shown shown := ⟨.refl _, rfl, rfl⟩

/-- What is behind an action is closed if it is run, and nothing is closed if the action fails. -/
theorem andThen {first : Showing Failure Result} {second unclosed : Result → Showing Failure Unit}
    {l : Ledger} {closed : Bool}
    (hOk : ∀ a, (first l).result = .ok a →
      ClosedBy closed (second a (first l).ledger) (unclosed a (first l).ledger))
    (hError : (first l).result.isOk = false → closed = false) :
    ClosedBy closed (first.andThen second l) (first.andThen unclosed l) := by
  cases hFirst : (first l).result with
  | error failure =>
      obtain rfl := hError (by rw [hFirst]; rfl)
      rw [andThen_of_error hFirst, andThen_of_error hFirst]
      exact refl _
  | ok a =>
      rw [andThen_of_ok hFirst, andThen_of_ok hFirst]
      have hSecond := hOk a hFirst
      exact ⟨hSecond.layout.behind _, hSecond.result, hSecond.ledger⟩

/-- The last branch of all is closed, however its body ends. -/
theorem last {header : String} (h : leadingKeyword header ∈ ["#if", "#elif", "#else"])
    {closing : Option String} (hClosing : (closing <|> some "#endif") = some "#endif")
    (body : Showing Failure Unit) (l : Ledger) :
    ClosedBy true (body.within (.scope { header := some header, closing }) l)
      (body.within (.scope (.unclosed header)) l) :=
  ⟨.scope h hClosing _, rfl, rfl⟩

/-- The same with nothing to be done behind it. -/
theorem last_done {header : String} (h : leadingKeyword header ∈ ["#if", "#elif", "#else"])
    {closing : Option String} (hClosing : (closing <|> some "#endif") = some "#endif")
    (body : Showing Failure Unit) (l : Ledger) :
    ClosedBy true
      ((body.within (.scope { header := some header, closing })).andThen (fun _ => done ()) l)
      ((body.within (.scope (.unclosed header))).andThen (fun _ => done ()) l) := by
  have hLast := last h hClosing body l
  have hWithin (scope : Scope) : (body.within (.scope scope) l).result = (body l).result := rfl
  cases hResult : (body l).result with
  | error failure =>
      rw [andThen_of_error ((hWithin _).trans hResult),
        andThen_of_error ((hWithin _).trans hResult)]
      exact ⟨hLast.layout, rfl, rfl⟩
  | ok a =>
      rw [andThen_of_ok ((hWithin _).trans hResult), andThen_of_ok ((hWithin _).trans hResult)]
      exact ⟨hLast.layout.before_nothing, rfl, rfl⟩

/-- Without an else branch the last item has the closing line. The induction is on the items that
are left. -/
theorem branches {count index : Nat} {items : List Item} (hCount : index + items.length = count)
    (l : Ledger) :
    ClosedBy (entersLast condition body false items l)
      (Showing.branches .preElseIf count false condition body index items l)
      (openBranches condition body index items l) := by
  induction items generalizing index l with
  | nil => exact refl _
  | cons item rest ih =>
      refine andThen (fun text hText => ?_) fun hFails => ?_
      · cases rest with
        | nil =>
            have hLast : (index + 1 == count) = true := by simp [← hCount]
            have hScope : ChainStyle.preElseIf.entrance index count text false =
                { header := some (conditionLine index text), closing := some "#endif" } := by
              simp [ChainStyle.entrance, hLast, conditionLine]
            have hEnters : entersLast condition body false [item] l = true := by
              simp [entersLast, hText, Except.isOk, Except.toBool]
            rw [hScope, hEnters]
            exact last_done (leadingKeyword_conditionLine index text) rfl _ _
        | cons next rest =>
            have hMore : (index + 1 == count) = false := by
              rw [List.length_cons, List.length_cons] at hCount
              simp only [beq_eq_false_iff_ne]
              omega
            have hScope : ChainStyle.preElseIf.entrance index count text false =
                .unclosed (conditionLine index text) := by
              simp [ChainStyle.entrance, hMore, conditionLine, Scope.unclosed]
            rw [hScope]
            have hTested : (condition item l).result.isOk = true := by rw [hText]; rfl
            have hEnters : entersLast condition body false (item :: next :: rest) l =
                ((body item (condition item l).ledger).result.isOk &&
                  entersLast condition body false (next :: rest)
                    (body item (condition item l).ledger).ledger) := by
              rw [entersLast, hTested]
              rfl
            refine andThen (fun _ hBody => ?_) fun hFails => ?_
            · have hInner : (body item (condition item l).ledger).result = .ok () := hBody
              rw [hEnters, hInner]
              exact ih (by simpa [Nat.add_assoc, Nat.add_comm] using hCount) _
            · have hInner : (body item (condition item l).ledger).result.isOk = false := hFails
              rw [hEnters, hInner, Bool.false_and]
      · simp [entersLast, hFails]

/-- With an else branch no item has a closing line. -/
theorem branches_eq (count index : Nat) (items : List Item) :
    Showing.branches .preElseIf count true condition body index items =
      openBranches condition body index items := by
  induction items generalizing index with
  | nil => rfl
  | cons item rest ih =>
      have hScope (text : String) : ChainStyle.preElseIf.entrance index count text true =
          .unclosed (conditionLine index text) := by
        simp [ChainStyle.entrance, conditionLine, Scope.unclosed]
      simp only [Showing.branches, openBranches, hScope, ih]

/-- The else branch is entered when all branches have succeeded. -/
theorem entersLast_true (index : Nat) (items : List Item) (l : Ledger) :
    entersLast condition body true items l =
      (openBranches condition body index items l).result.isOk := by
  induction items generalizing index l with
  | nil => rfl
  | cons item rest ih =>
      rw [openBranches, entersLast]
      cases hText : (condition item l).result with
      | error failure =>
          rw [andThen_of_error hText]
          rfl
      | ok text =>
          rw [andThen_of_ok hText]
          have hInner : ((body item).within (.scope (.unclosed (conditionLine index text)))
              (condition item l).ledger).result =
            (body item (condition item l).ledger).result := rfl
          cases hBody : (body item (condition item l).ledger).result with
          | error failure =>
              rw [andThen_of_error (hInner.trans hBody)]
              simp [Except.isOk, Except.toBool]
          | ok a =>
              rw [andThen_of_ok (hInner.trans hBody)]
              simp only [Except.isOk, Except.toBool, Bool.not_true, Bool.and_false, Bool.false_or,
                Bool.true_and]
              exact ih (index + 1) _

/-- A chain of the preprocessor is what is written without its closing line, and that line if its
last scope is entered. -/
theorem chain (wrap : EmissionError → Failure) (items : List Item)
    (otherwise : Option (Showing Failure Unit)) (l : Ledger) :
    ClosedBy (!items.isEmpty && entersLast condition body otherwise.isSome items l)
      (Showing.chain wrap .preElseIf items condition body otherwise l)
      (openChain items condition body otherwise l) := by
  cases otherwise with
  | none =>
      cases items with
      | nil => exact refl _
      | cons item rest => exact branches (Nat.zero_add _) l
  | some elseBody =>
      change ClosedBy _ ((Showing.branches .preElseIf items.length true condition body 0
        items).andThen (fun _ => if items.isEmpty then elseBody
          else elseBody.within (.scope (.headed "#else"))) l) _
      rw [branches_eq, Option.isSome_some, entersLast_true 0]
      refine andThen (fun a hOk => ?_) fun hFails => ?_
      · cases items with
        | nil => exact refl _
        | cons item rest =>
            rw [hOk]
            exact last (by decide) rfl elseBody _
      · rw [hFails, Bool.and_false]

/-- If all branches succeed, the scope of the last item is entered. -/
theorem entersLast_false {items : List Item} (hItems : items ≠ []) {l : Ledger}
    (h : entersLast condition body true items l = true) :
    entersLast condition body false items l = true := by
  induction items generalizing l with
  | nil => exact absurd rfl hItems
  | cons item rest ih =>
      rw [entersLast, Bool.not_true, Bool.and_false, Bool.false_or, Bool.and_eq_true,
        Bool.and_eq_true] at h
      obtain ⟨hTested, hInner, hRest⟩ := h
      cases rest with
      | nil => simp [entersLast, hTested]
      | cons next rest =>
          rw [entersLast, hTested, hInner, ih (List.cons_ne_nil _ _) hRest]
          rfl

/-- A chain that succeeds has entered its last scope. -/
theorem entersLast_of_ok {items : List Item} (hItems : items ≠ [])
    {otherwise : Option (Showing Failure Unit)} {l : Ledger}
    (h : (openChain items condition body otherwise l).result.isOk = true) :
    entersLast condition body otherwise.isSome items l = true := by
  cases otherwise with
  | none => exact entersLast_false hItems ((entersLast_true 0 items l).trans h)
  | some elseBody =>
      refine (entersLast_true 0 items l).trans ?_
      cases hResult : (openBranches condition body 0 items l).result with
      | ok a => rfl
      | error failure =>
          rw [openChain, andThen_of_error hResult] at h
          cases h

end Shown.ClosedBy

namespace Program

/-- A chain whose else branch may be missing. -/
def branching (style : ChainStyle) (items : List Item) (condition : Item → Program Failure String)
    (body : Item → Program Failure Unit) : Option (Program Failure Unit) → Program Failure Unit
  | none => .chain style items condition body
  | some elseBody => .chainElse style items condition body elseBody

variable (wrap : EmissionError → Failure) (items : List Item)
  (condition : Item → Program Failure String) (body : Item → Program Failure Unit)
  (otherwise : Option (Program Failure Unit))

/-- What a preprocessor chain comes to, without its closing line. -/
def unclosed (e : Emitter) : Shown Failure Unit :=
  Showing.openChain items (fun item => (condition item).showing wrap)
    (fun item => (body item).showing wrap) (otherwise.map (·.showing wrap)) e.ledger

/-- The last scope of a chain is entered. A chain without items has no scope. -/
def closes (e : Emitter) : Bool :=
  !items.isEmpty && Showing.entersLast (fun item => (condition item).showing wrap)
    (fun item => (body item).showing wrap) otherwise.isSome items e.ledger

/-- With and without its closing line a chain for the preprocessor comes to the same but for that
line, which is there if the last scope was entered. -/
theorem closedBy_branching (e : Emitter) :
    Shown.ClosedBy (closes wrap items condition body otherwise e)
      ((branching .preElseIf items condition body otherwise).showing wrap e.ledger)
      (unclosed wrap items condition body otherwise e) := by
  cases otherwise with
  | none => exact .chain wrap items none e.ledger
  | some elseBody => exact .chain wrap items (some (elseBody.showing wrap)) e.ledger

end Program

/-- What has thrown nothing has a result. -/
theorem isOk_of_thrown?_behind {shown : Shown Failure Result} {e : Emitter}
    (h : thrown? (shown.behind e) = none) : shown.result.isOk = true := by
  unfold Shown.behind at h
  cases hResult : shown.result with
  | ok result => rfl
  | error failure =>
      rw [hResult] at h
      cases h

/-- A chain of the preprocessor ends in one closing line, at the level of the chain, if its last
scope is entered, and in none otherwise. The last scope is entered if the chain has items and
succeeds. If a condition fails, or a body that is not the last one, it is not entered. -/
theorem output_branching (wrap : EmissionError → Failure) (items : List Item)
    (condition : Item → Program Failure String) (body : Item → Program Failure Unit)
    (otherwise : Option (Program Failure Unit)) (e : Emitter) :
    (endState ((Program.branching .preElseIf items condition body otherwise).run wrap e)).output =
      (e.adding ((Program.unclosed wrap items condition body otherwise e).layout.lines e.inMacro
          e.indent ++
        if Program.closes wrap items condition body otherwise e then
          [⟨(Program.unclosed wrap items condition body otherwise e).layout.ends e.inMacro,
            e.indent, "#endif"⟩]
        else [])).output ∧
    (items ≠ [] →
      thrown? ((Program.branching .preElseIf items condition body otherwise).run wrap e) = none →
      Program.closes wrap items condition body otherwise e = true) := by
  have hChain := Program.closedBy_branching wrap items condition body otherwise e
  refine ⟨?_, fun hItems hSuccess => ?_⟩
  · rw [Program.output_run, Program.lines, Program.layout, hChain.layout.lines]
  · rw [Program.showsEverywhere_run] at hSuccess
    have hOk := isOk_of_thrown?_behind hSuccess
    rw [hChain.result] at hOk
    have hEnters := Shown.ClosedBy.entersLast_of_ok hItems hOk
    rw [Option.isSome_map] at hEnters
    rw [Program.closes, hEnters, List.isEmpty_eq_false_iff.2 hItems]
    rfl

/-- A condition that is given, or fails. -/
def given (condition : Option String) : Program EmissionError String :=
  condition.elim (.fail (.emptyTable "condition")) .done

/-- The condition of the second item fails, so that the chain is not closed. -/
theorem unclosed_behind_failure :
    thrown? ((Program.branching .preElseIf [some "A", none] given (fun _ => .line "a") none).run id
        {}) = some (.emptyTable "condition") ∧
      (endState ((Program.branching .preElseIf [some "A", none] given (fun _ => .line "a")
        none).run id {})).output = "#if A\n    a\n" ∧
      (endState ((Program.branching .preElseIf [some "A", some "B"] given (fun _ => .line "a")
        none).run id {})).output = "#if A\n    a\n#elif B\n    a\n#endif\n" := by
  decide +kernel

/-- Two branches that succeed. -/
theorem output_branching_two :
    [some "A", some "B"] ≠ [] ∧
      thrown? ((Program.branching .preElseIf [some "A", some "B"] given (fun _ => .line "a")
        none).run id {}) = none ∧
      Program.closes id [some "A", some "B"] given (fun _ => .line "a") none {} = true :=
  have hItems : [some "A", some "B"] ≠ [] := List.cons_ne_nil _ _
  have hSuccess : thrown? ((Program.branching .preElseIf [some "A", some "B"] given
      (fun _ => .line "a") none).run id {}) = none := by decide +kernel
  ⟨hItems, hSuccess, (output_branching id [some "A", some "B"] given (fun _ => .line "a") none
    {}).2 hItems hSuccess⟩

end Metagen.Emission
