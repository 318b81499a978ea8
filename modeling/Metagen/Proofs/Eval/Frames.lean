import Metagen.Eval.Level
import Metagen.Proofs.Emission.Target
import Metagen.Proofs.Eval.Native
import Metagen.Proofs.Script.Parts

/-! What is running. Every frame of a script stands for a body of code and is at a line of that
code, and whatever a step enters it leaves again, also when it fails; a failure takes with it the
frames that it arose in. -/

namespace Metagen.Eval

open Script Emission

/-- The scripts of a run by their numbers. -/
abbrev Scripts := Nat → Option Program

/-- Code that a frame stands for: the top level of a script, or a function in it. -/
inductive Body where
  | top (unit : Nat)
  | function (unit : Nat) (f : Function)

namespace Body

def unit : Body → Nat
  | top unit | function unit _ => unit

def label : Body → Option String
  | top _ => none
  | function _ f => some f.label

/-- The node is part of the body. -/
def HasNode (scripts : Scripts) : Body → Node → Prop
  | top unit, node => ∃ p, scripts unit = some p ∧ p.HasNode node
  | function unit f, node =>
    (∃ p, scripts unit = some p ∧ p.HasNode (.function f)) ∧ node.Inside (.function f)

variable {scripts : Scripts} {body : Body} {node : Node}

/-- What a node of a body contains belongs to the body too. -/
theorem HasNode.deeper (h : body.HasNode scripts node) {inner : Node}
    (hInner : inner ∈ node.parts) :
    body.HasNode scripts inner := by
  cases body with
  | top unit =>
      obtain ⟨p, hScript, hNode⟩ := h
      exact ⟨p, hScript, hNode.deeper ((Node.Inside.refl node).deeper hInner)⟩
  | function unit f => exact ⟨h.1, h.2.deeper hInner⟩

/-- Whatever is part of a body is part of its script. -/
theorem HasNode.hasNode (h : body.HasNode scripts node) :
    ∃ p, scripts body.unit = some p ∧ p.HasNode node := by
  cases body with
  | top unit => exact h
  | function unit f =>
      obtain ⟨⟨p, hScript, hFunction⟩, hNode⟩ := h
      exact ⟨p, hScript, hFunction.deeper hNode⟩

theorem HasNode.function {f : Function} (h : body.HasNode scripts (.function f)) :
    (Body.function body.unit f).HasNode scripts (.function f) := ⟨h.hasNode, .refl _⟩

end Body

/-- The frame stands for the body, and is at a line where a part of it starts. -/
structure Frame.StandsFor (scripts : Scripts) (body : Body) (f : Frame) : Prop where
  site : f.site = .unit body.unit
  label : f.label = body.label
  line : ∃ node, body.HasNode scripts node ∧ f.line = node.span.start.line

/-- The frame stands for a body of some script, or for something that is no script. -/
def Frame.FitsScripts (scripts : Scripts) (f : Frame) : Prop :=
  f.site = .native ∨ ∃ body, f.StandsFor scripts body

/-- The frames, but for the line that the innermost one is at. -/
def outline (frames : List Frame) : List Frame := frames.modifyHead ({ · with line := 0 })

/-- Frames have the outline of others exactly if they differ in the line of the innermost one
alone. -/
theorem outline_cons_iff {f : Frame} {rest frames : List Frame} :
    outline frames = outline (f :: rest) ↔
      ∃ f', frames = f' :: rest ∧ f'.site = f.site ∧ f'.label = f.label := by
  cases frames with
  | nil => simp [outline]
  | cons g others =>
      constructor
      · intro h
        obtain ⟨hHead, rfl⟩ := List.cons.inj h
        obtain ⟨hSite, -, hLabel⟩ := Frame.mk.inj hHead
        exact ⟨g, rfl, hSite, hLabel⟩
      · rintro ⟨_, ⟨⟩, hSite, hLabel⟩
        simp [outline, hSite, hLabel]

/-- What surrounds the running code is as it was. -/
structure Restores (m m' : Machine) : Prop where
  frames : outline m'.frames = outline m.frames
  unit : m'.unit = m.unit
  calls : m'.calls = m.calls
  loops : m'.loops = m.loops
  file : fileOf m' = fileOf m

theorem Restores.refl (m : Machine) : Restores m m := ⟨rfl, rfl, rfl, rfl, rfl⟩

theorem Restores.trans {m₁ m₂ m₃ : Machine} (h : Restores m₁ m₂) (h' : Restores m₂ m₃) :
    Restores m₁ m₃ :=
  ⟨h'.frames.trans h.frames, h'.unit.trans h.unit, h'.calls.trans h.calls,
    h'.loops.trans h.loops, h'.file.trans h.file⟩

/-- Where code runs: in some body, or in something that is no script. -/
structure Setting where
  body : Option Body
  /-- There is a loop around the code within its call. -/
  inLoop : Bool := false

/-- All functions were written in the scripts that they name. -/
def FunctionsFit (scripts : Scripts) (s : Store) : Prop :=
  ∀ closure ∈ s.functions,
    (Body.function closure.unit closure.function).HasNode scripts (.function closure.function)

/-- The machine is about to run code of a setting. -/
structure Ready (scripts : Scripts) (here : Setting) (m : Machine) : Prop where
  frames : ∀ f ∈ m.frames, f.FitsScripts scripts
  functions : FunctionsFit scripts m.store
  body : ∀ body ∈ here.body, m.unit = body.unit ∧ ∃ f ∈ m.frames.head?, f.StandsFor scripts body
  loops : here.inLoop = false → m.loops = 0

theorem Ready.withEmitter {scripts : Scripts} {here : Setting} {m : Machine}
    (h : Ready scripts here m) (e : Emitter) : Ready scripts here { m with emitter := e } :=
  ⟨h.frames, h.functions, h.body, h.loops⟩

/-- The machine has come back to where it was. -/
theorem Ready.resume {scripts : Scripts} {here : Setting} {m m' : Machine}
    (h : Ready scripts here m) (hFunctions : FunctionsFit scripts m'.store)
    (hFrames : m'.frames = m.frames) (hUnit : m'.unit = m.unit) (hLoops : m'.loops = m.loops) :
    Ready scripts here m' := by
  refine ⟨?_, hFunctions, ?_, ?_⟩
  · rw [hFrames]
    exact h.frames
  · rw [hFrames, hUnit]
    exact h.body
  · rw [hLoops]
    exact h.loops

/-- A failure has left none of these frames yet, or it tells all frames that it arose in, of which
these are the outer ones. -/
def Traced (scripts : Scripts) (frames : List Frame) : Stop → Prop
  | .outOfFuel => True
  | .failed error => error.trace = [] ∨ (∀ f ∈ error.trace, f.FitsScripts scripts) ∧
      ∃ inner outer, error.trace = inner ++ outer ∧ outline outer = outline frames

/-- A failure that was traced in some frames is traced in those that differ from them in the line of
the innermost one alone. -/
theorem Traced.before {scripts : Scripts} {frames frames' : List Frame} {stop : Stop}
    (h : Traced scripts frames' stop) (hFirst : outline frames' = outline frames) :
    Traced scripts frames stop := by
  cases stop with
  | outOfFuel => exact trivial
  | failed error =>
      rcases h with hNone | ⟨hFits, inner, outer, hTrace, hOuter⟩
      · exact .inl hNone
      · exact .inr ⟨hFits, inner, outer, hTrace, hOuter.trans hFirst⟩

/-- A failure tells a frame like this one in front of these, and those inside it. -/
def Told (scripts : Scripts) (frame : Frame) (frames : List Frame) : Stop → Prop
  | .outOfFuel => True
  | .failed error => (∀ f ∈ error.trace, f.FitsScripts scripts) ∧
      ∃ inner f, error.trace = inner ++ f :: frames ∧ f.site = frame.site ∧ f.label = frame.label

/-- A failure that was told in a frame and those around it is traced there. -/
theorem Told.traced {scripts : Scripts} {frame : Frame} {frames : List Frame} {stop : Stop}
    (h : Told scripts frame frames stop) : Traced scripts frames stop := by
  cases stop with
  | outOfFuel => exact trivial
  | failed error =>
      obtain ⟨hFits, inner, f, hTrace, -⟩ := h
      exact .inr ⟨hFits, inner ++ [f], frames, by simp [hTrace], rfl⟩

/-- Only what the frame stands for counts. -/
theorem Told.like {scripts : Scripts} {frame other : Frame} {frames : List Frame} {stop : Stop}
    (h : Told scripts frame frames stop) (hSite : frame.site = other.site)
    (hLabel : frame.label = other.label) : Told scripts other frames stop := by
  cases stop with
  | outOfFuel => exact trivial
  | failed error =>
      obtain ⟨hFits, inner, f, hTrace, hSame, hSame'⟩ := h
      exact ⟨hFits, inner, f, hTrace, hSame.trans hSite, hSame'.trans hLabel⟩

/-- A failure that leaves a frame tells it. -/
theorem Traced.leave {scripts : Scripts} {frame : Frame} {frames inside : List Frame} {stop : Stop}
    (h : Traced scripts (frame :: frames) stop)
    (hInside : outline inside = outline (frame :: frames))
    (hFits : ∀ f ∈ inside, f.FitsScripts scripts) :
    Told scripts frame frames (stop.traced inside) := by
  obtain ⟨f, rfl, hSite, hLabel⟩ := outline_cons_iff.1 hInside
  cases stop with
  | outOfFuel => exact trivial
  | failed error =>
      by_cases hNone : error.trace = []
      · have hTraced : (Stop.failed error).traced (f :: frames) =
            .failed { error with trace := f :: frames } := by simp [Stop.traced, hNone]
        rw [hTraced]
        exact ⟨hFits, [], f, rfl, hSite, hLabel⟩
      · obtain ⟨hAll, inner, outer, hTrace, hOuter⟩ := h.resolve_left hNone
        obtain ⟨g, rfl, hSite, hLabel⟩ := outline_cons_iff.1 hOuter
        have hTraced : (Stop.failed error).traced (f :: frames) = .failed error := by
          simp [Stop.traced, hNone]
        rw [hTraced]
        exact ⟨hAll, inner, g, hTrace, hSite, hLabel⟩

variable {scripts : Scripts} {here : Setting} {α β : Type}

/-- What comes of a step from a machine. -/
def LeavesOrderly (scripts : Scripts) (here : Setting) (m : Machine) (good : α → Prop) :
    EStateM.Result Stop Machine α → Prop
  | .ok a m' => Restores m m' ∧ Ready scripts here m' ∧ good a
  | .error stop m' => Restores m m' ∧ Ready scripts here m' ∧ Traced scripts m.frames stop

/-- The step leaves whatever it enters, and its result is good. -/
def Orderly (scripts : Scripts) (here : Setting) (good : α → Prop) (action : EvalM α) : Prop :=
  ∀ m, Ready scripts here m → LeavesOrderly scripts here m good (action m)

/-- Nothing needs to be known of the result. -/
abbrev Any : α → Prop := fun _ => True

namespace Orderly

variable {good : α → Prop} {action : EvalM α}

theorem pure {a : α} (h : good a) : Orderly scripts here good (pure a) :=
  fun m hReady => ⟨.refl m, hReady, h⟩

theorem fail (fault : Fault) : Orderly scripts here good (fail fault) :=
  fun m hReady => ⟨.refl m, hReady, .inl rfl⟩

theorem outOfFuel : Orderly scripts here good (throw .outOfFuel : EvalM α) :=
  fun m hReady => ⟨.refl m, hReady, trivial⟩

/-- Orderly steps one behind the other are orderly, if the second one is for every good result of
the first. -/
theorem bind {mid : β → Prop} {first : EvalM β} {second : β → EvalM α}
    (hFirst : Orderly scripts here mid first)
    (hSecond : ∀ b, mid b → Orderly scripts here good (second b)) :
    Orderly scripts here good (first >>= second) := by
  intro m hReady
  have hLeaves := hFirst m hReady
  change LeavesOrderly scripts here m good (EStateM.bind first second m)
  rw [EStateM.bind]
  cases hRun : first m with
  | error stop m' =>
      rw [hRun] at hLeaves
      exact hLeaves
  | ok b m' =>
      rw [hRun] at hLeaves
      obtain ⟨hRestores, hNext, hMid⟩ := hLeaves
      have hRest := hSecond b hMid m' hNext
      dsimp only
      cases hLast : second b m' with
      | error stop m'' =>
          rw [hLast] at hRest
          exact ⟨hRestores.trans hRest.1, hRest.2.1, hRest.2.2.before hRestores.frames⟩
      | ok a m'' =>
          rw [hLast] at hRest
          exact ⟨hRestores.trans hRest.1, hRest.2⟩

theorem bindAny {first : EvalM β} {second : β → EvalM α} (hFirst : Orderly scripts here Any first)
    (hSecond : ∀ b, Orderly scripts here good (second b)) :
    Orderly scripts here good (first >>= second) := hFirst.bind fun b _ => hSecond b

theorem map {f : α → β} (h : Orderly scripts here Any action) :
    Orderly scripts here Any (f <$> action) := by
  rw [map_eq_pure_bind]
  exact h.bindAny fun _ => pure trivial

theorem ite {p : Prop} [Decidable p] {other : EvalM α} (h : Orderly scripts here good action)
    (hOther : Orderly scripts here good other) :
    Orderly scripts here good (if p then action else other) := by
  split
  · exact h
  · exact hOther

theorem mapM {items : List β} {f : β → EvalM α}
    (hItem : ∀ b ∈ items, Orderly scripts here Any (f b)) :
    Orderly scripts here Any (items.mapM f) := by
  induction items with
  | nil =>
      rw [List.mapM_nil]
      exact pure trivial
  | cons item rest ih =>
      rw [List.mapM_cons]
      refine (hItem item List.mem_cons_self).bindAny fun _ => ?_
      refine (ih fun b hb => hItem b (List.mem_cons_of_mem _ hb)).bindAny fun _ => ?_
      exact pure trivial

theorem foldlM {items : List β} {f : α → β → EvalM α} (a : α)
    (hStep : ∀ b ∈ items, ∀ a, Orderly scripts here Any (f a b)) :
    Orderly scripts here Any (items.foldlM f a) := by
  induction items generalizing a with
  | nil =>
      rw [List.foldlM_nil]
      exact pure trivial
  | cons item rest ih =>
      rw [List.foldlM_cons]
      refine (hStep item List.mem_cons_self a).bindAny fun b => ?_
      exact ih b fun c hc => hStep c (List.mem_cons_of_mem _ hc)

theorem readStore (f : Store → α) : Orderly scripts here Any (readStore f) :=
  fun m hReady => ⟨.refl m, hReady, trivial⟩

/-- A change of the store that keeps the functions is an orderly step. -/
theorem changeStore {f : Env → Store → Store}
    (h : ∀ env s, (f env s).functions = s.functions) :
    Orderly scripts here Any (changeStore f) := by
  intro m hReady
  refine ⟨⟨rfl, rfl, rfl, rfl, rfl⟩, hReady.resume ?_ rfl rfl rfl, trivial⟩
  intro closure hClosure
  exact hReady.functions closure (h m.env m.store ▸ hClosure)

/-- A step of the store that makes no functions is orderly: it touches neither frames nor the
file. -/
theorem onStore {step : EStateM Fault Store α} (h : KeepsFunctions step) :
    Orderly scripts here Any (onStore step) := by
  intro m hReady
  have hFunctions := h m.store
  rw [Eval.onStore]
  cases hRun : step m.store with
  | error fault s =>
      rw [hRun] at hFunctions
      refine ⟨⟨rfl, rfl, rfl, rfl, rfl⟩, hReady.resume ?_ rfl rfl rfl, .inl rfl⟩
      intro closure hClosure
      exact hReady.functions closure (hFunctions ▸ hClosure)
  | ok a s =>
      rw [hRun] at hFunctions
      refine ⟨⟨rfl, rfl, rfl, rfl, rfl⟩, hReady.resume ?_ rfl rfl rfl, trivial⟩
      intro closure hClosure
      exact hReady.functions closure (hFunctions ▸ hClosure)

/-- A builtin function or method. -/
theorem native {action : Native α} (h : action.KeepsFunctions) (args : Args) :
    Orderly scripts here Any (Eval.onStore (action.run' args)) := onStore ((h args).map _)

theorem makeCell {f : Store → α × Store} (h : ∀ s, (f s).2.functions = s.functions) :
    Orderly scripts here Any (makeCell f) := onStore fun s => h s

theorem renderValue (v : Value) : Orderly scripts here Any (renderValue v) := readStore _

theorem isTrue (v : Value) : Orderly scripts here Any (isTrue v) := readStore _

theorem cTextOf (v : Value) : Orderly scripts here Any (cTextOf v) := by
  intro m hReady
  unfold Eval.cTextOf
  split
  · exact ⟨.refl m, hReady, trivial⟩
  · exact fail _ m hReady

theorem define (name : String) (v : Value) : Orderly scripts here Any (define name v) := by
  refine changeStore fun env s => ?_
  unfold Env.define
  split
  · split
    · rfl
    · rfl
  · rfl

/-- What has been entered is left again, and the frames are not concerned. -/
theorem leaving {inLoop : Bool} {m m₁ : Machine} {leave : Machine → Machine}
    (hReady : Ready scripts here m)
    (h : LeavesOrderly scripts { here with inLoop } m₁ good (action m₁))
    (hLeave : ∀ m', Restores m₁ m' → Restores m (leave m') ∧
      (leave m').frames = m'.frames ∧ (leave m').store = m'.store)
    (hFrames : m₁.frames = m.frames) :
    LeavesOrderly scripts here m good (Eval.leaving leave action m₁) := by
  have hBack : ∀ m', Restores m₁ m' → Ready scripts { here with inLoop } m' →
      Restores m (leave m') ∧ Ready scripts here (leave m') := by
    intro m' hRestores hLater
    obtain ⟨hLeft, hSame, hStore⟩ := hLeave m' hRestores
    refine ⟨hLeft, ?_, ?_, fun body hBody => ?_, fun hNone => ?_⟩
    · rw [hSame]
      exact hLater.frames
    · rw [hStore]
      exact hLater.functions
    · rw [hSame, hLeft.unit]
      exact ⟨(hReady.body body hBody).1, (hLater.body body hBody).2⟩
    · rw [hLeft.loops]
      exact hReady.loops hNone
  rw [Eval.leaving]
  cases hRun : action m₁ with
  | error stop m' =>
      rw [hRun] at h
      obtain ⟨hRestores, hLater, hTraced⟩ := h
      obtain ⟨hLeft, hHere⟩ := hBack m' hRestores hLater
      exact ⟨hLeft, hHere, hFrames ▸ hTraced⟩
  | ok a m' =>
      rw [hRun] at h
      obtain ⟨hRestores, hLater, hGood⟩ := h
      obtain ⟨hLeft, hHere⟩ := hBack m' hRestores hLater
      exact ⟨hLeft, hHere, hGood⟩

theorem pushScope : Orderly scripts here Any pushScope := by
  intro m hReady
  refine ⟨⟨rfl, rfl, rfl, rfl, rfl⟩, hReady.resume ?_ rfl rfl rfl, trivial⟩
  exact hReady.functions

/-- A scope that is opened around a step and left behind it keeps what is orderly, since frames are
not touched. -/
theorem inNewScope (h : Orderly scripts here good action) :
    Orderly scripts here good (inNewScope action) := by
  refine pushScope.bindAny fun _ m hReady => leaving hReady (h m hReady) ?_ rfl
  intro m' hRestores
  exact ⟨⟨hRestores.frames, hRestores.unit, hRestores.calls, hRestores.loops, hRestores.file⟩,
    rfl, rfl⟩

/-- Running a step in other scopes keeps what is orderly; the scopes that were open come back behind
it. -/
theorem inScopes (env : Env) (h : Orderly scripts here good action) :
    Orderly scripts here good (inScopes env action) := by
  intro m hReady
  have hInside := h { m with env } ⟨hReady.frames, hReady.functions, hReady.body, hReady.loops⟩
  refine leaving hReady hInside (fun m' hRestores => ?_) rfl
  exact ⟨⟨hRestores.frames, hRestores.unit, hRestores.calls, hRestores.loops, hRestores.file⟩,
    rfl, rfl⟩

theorem changeEmitter {change : Emitter → Emitter} (h : ∀ e, (change e).file = e.file) :
    Orderly scripts here Any (Emission.changeEmitter change : EvalM Unit) :=
  fun _ hReady => ⟨⟨rfl, rfl, rfl, rfl, h _⟩, hReady.withEmitter _, trivial⟩

theorem liftEmit {emit : Emit α} (h : KeepsFile emit) :
    Orderly scripts here Any (Emission.liftEmit Stop.ofRefusal emit : EvalM α) := by
  intro m hReady
  have hFile := h (HoldsEmitter.emitter m)
  rw [Emission.liftEmit]
  cases hRun : emit (HoldsEmitter.emitter m) with
  | error error e =>
      rw [hRun] at hFile
      exact ⟨⟨rfl, rfl, rfl, rfl, hFile⟩, hReady.withEmitter _, .inl rfl⟩
  | ok a e =>
      rw [hRun] at hFile
      exact ⟨⟨rfl, rfl, rfl, rfl, hFile⟩, hReady.withEmitter _, trivial⟩

theorem andAfter (change : Emitter → Emitter) (h : Orderly scripts here good action)
    (hChange : ∀ e, (change e).file = e.file) :
    Orderly scripts here good (Emission.andAfter action change) := by
  intro m hReady
  have hLeaves := h m hReady
  rw [Emission.andAfter]
  cases hRun : action m with
  | error stop m' =>
      rw [hRun] at hLeaves
      obtain ⟨hRestores, hLater, hTraced⟩ := hLeaves
      exact ⟨{ hRestores with file := (hChange _).trans hRestores.file }, hLater.withEmitter _,
        hTraced⟩
  | ok a m' =>
      rw [hRun] at hLeaves
      obtain ⟨hRestores, hLater, hGood⟩ := hLeaves
      exact ⟨{ hRestores with file := (hChange _).trans hRestores.file }, hLater.withEmitter _,
        hGood⟩

/-- A step that starts with another emitter for the same file. -/
theorem afterEmitter (change : Emitter → Emitter) (h : Orderly scripts here good action)
    (hChange : ∀ e, (change e).file = e.file) :
    Orderly scripts here good fun m => action { m with emitter := change m.emitter } := by
  intro m hReady
  have hLeaves := h _ (hReady.withEmitter (change m.emitter))
  dsimp only
  cases hRun : action { m with emitter := change m.emitter } with
  | error stop m' =>
      rw [hRun] at hLeaves
      obtain ⟨hRestores, hLater, hTraced⟩ := hLeaves
      exact ⟨{ hRestores with file := hRestores.file.trans (hChange _) }, hLater, hTraced⟩
  | ok a m' =>
      rw [hRun] at hLeaves
      obtain ⟨hRestores, hLater, hGood⟩ := hLeaves
      exact ⟨{ hRestores with file := hRestores.file.trans (hChange _) }, hLater, hGood⟩

theorem withScope (scope : Scope) (h : Orderly scripts here good action) :
    Orderly scripts here good (Emission.withScope scope action) := by
  intro m hReady
  have hAfter := h.andAfter (·.exit (m.emitter.enter scope).1) fun e => e.file_exit _
  exact hAfter.afterEmitter (fun e => (e.enter scope).2) (fun e => e.file_enter _) m hReady

theorem withSection (text : String) (h : Orderly scripts here good action) :
    Orderly scripts here good (Emission.withSection text action) := by
  have hAfter := h.andAfter (·.endSection) fun _ => rfl
  exact hAfter.afterEmitter (·.beginSection text) fun _ => rfl

/-- Marking moves the innermost frame to the line where the range starts, and changes nothing
else. -/
theorem mark_eq {m : Machine} {f : Frame} {rest : List Frame} (hFrames : m.frames = f :: rest)
    (span : Span) :
    Eval.mark span m = .ok () { m with frames := f.atLine span.start.line :: rest } := by
  obtain ⟨store, emitter, frames, unit, env, calls, loops⟩ := m
  obtain rfl := hFrames
  rfl

/-- Marking a node of the running body moves the innermost frame to a line where a part of the body
starts. -/
theorem mark {body : Body} {node : Node} (hBody : here.body = some body)
    (hNode : body.HasNode scripts node) : Orderly scripts here Any (mark node.span) := by
  intro m hReady
  obtain ⟨hUnit, f, hHead, hShows⟩ := hReady.body body hBody
  obtain ⟨rest, hFrames⟩ := List.head?_eq_some_iff.1 hHead
  have hMoved : (f.atLine node.span.start.line).StandsFor scripts body := by
    have hSame : f.atLine node.span.start.line = { f with line := node.span.start.line } := by
      simp [Frame.atLine, hShows.site]
    rw [hSame]
    exact ⟨hShows.site, hShows.label, node, hNode, rfl⟩
  rw [mark_eq hFrames]
  refine ⟨⟨?_, rfl, rfl, rfl, rfl⟩, ⟨?_, hReady.functions, ?_, hReady.loops⟩, trivial⟩
  · rw [hFrames]
    exact outline_cons_iff.2 ⟨_, rfl, hMoved.site.trans hShows.site.symm,
      hMoved.label.trans hShows.label.symm⟩
  · rintro g (_ | ⟨_, hg⟩)
    · exact .inr ⟨body, hMoved⟩
    · exact hReady.frames g (hFrames ▸ List.mem_cons_of_mem _ hg)
  · rintro other hOther
    obtain rfl : body = other := Option.some.inj (hBody.symm.trans hOther)
    exact ⟨hUnit, _, rfl, hMoved⟩

/-- A loop is orderly if its rounds are, within a loop: it brings back the count of loops. -/
theorem withLoop (h : Orderly scripts { here with inLoop := true } good action) :
    Orderly scripts here good (withLoop action) := by
  intro m hReady
  have hInside := h { m with loops := m.loops + 1 }
    ⟨hReady.frames, hReady.functions, hReady.body, nofun⟩
  refine leaving hReady hInside (fun m' hRestores => ?_) rfl
  have hLoops : m'.loops - 1 = m.loops := by simp [hRestores.loops]
  exact ⟨{ hRestores with loops := hLoops }, rfl, rfl⟩

/-- What runs inside a frame leaves the frames around it exactly as they were. -/
theorem tail_eq {frame : Frame} {frames inside : List Frame}
    (h : outline inside = outline (frame :: frames)) : inside.tail = frames := by
  obtain ⟨f, rfl, -, -⟩ := outline_cons_iff.1 h
  rfl

/-- Anything that runs inside a frame which is left again: `back` leaves the frame, and goes back to
the script and the counters around it. -/
theorem leavesOrderly_inside {inside : Setting} {frame : Frame} {m : Machine} (m₁ : Machine)
    (back : Machine → Machine)
    (hReady : Ready scripts here m) (hFrames : m₁.frames = frame :: m.frames)
    (hFile : fileOf m₁ = fileOf m) (hInside : Ready scripts inside m₁)
    (hBack : ∀ m', Restores m₁ m' → back m' = { m' with
      frames := m'.frames.tail, unit := m.unit, calls := m.calls, loops := m.loops })
    (h : Orderly scripts inside good action) :
    LeavesOrderly scripts here m good (match action m₁ with
      | .ok a m' => .ok a (back m')
      | .error stop m' => .error (stop.traced m'.frames) (back m')) := by
  have hLeaves := h m₁ hInside
  cases hRun : action m₁ with
  | error stop m' =>
      rw [hRun] at hLeaves
      obtain ⟨hRestores, hLater, hTraced⟩ := hLeaves
      have hOutline := hRestores.frames
      rw [hFrames] at hTraced hOutline
      have hTail := tail_eq hOutline
      simp only [hBack m' hRestores]
      exact ⟨⟨congrArg outline hTail, rfl, rfl, rfl, hRestores.file.trans hFile⟩,
        hReady.resume hLater.functions hTail rfl rfl,
        (hTraced.leave hOutline hLater.frames).traced⟩
  | ok a m' =>
      rw [hRun] at hLeaves
      obtain ⟨hRestores, hLater, hGood⟩ := hLeaves
      have hOutline := hRestores.frames
      rw [hFrames] at hOutline
      have hTail := tail_eq hOutline
      simp only [hBack m' hRestores]
      exact ⟨⟨congrArg outline hTail, rfl, rfl, rfl, hRestores.file.trans hFile⟩,
        hReady.resume hLater.functions hTail rfl rfl, hGood⟩

/-- Inside of something that is no script, nothing is marked, and failures are traced to its
frame. -/
theorem withNative (label : String)
    (h : Orderly scripts { body := none, inLoop := true } good action) :
    Orderly scripts here good (withNative label action) := by
  intro m hReady
  let frame : Frame := { site := .native, line := 0, label := some label }
  refine leavesOrderly_inside { m with frames := frame :: m.frames }
    (fun m' => { m' with frames := m'.frames.tail }) hReady rfl rfl ?_ ?_ h
  · refine ⟨?_, hReady.functions, nofun, nofun⟩
    rintro f (_ | ⟨_, hf⟩)
    · exact .inl rfl
    · exact hReady.frames f hf
  · rintro m' ⟨-, hUnit, hCalls, hLoops, -⟩
    rw [← hUnit, ← hCalls, ← hLoops]

/-- The call of a function runs its body. -/
theorem withCall {unit : Nat} {f : Function}
    (hFunction : (Body.function unit f).HasNode scripts (.function f))
    (h : Orderly scripts { body := some (.function unit f) } good action) :
    Orderly scripts here good (withCall unit (withFrame
      { site := .unit unit, line := f.span.start.line, label := some f.label } action)) := by
  intro m hReady
  let frame : Frame := { site := .unit unit, line := f.span.start.line, label := some f.label }
  let m₁ : Machine :=
    { m with unit, calls := m.calls + 1, loops := 0, frames := frame :: m.frames }
  have hShows : frame.StandsFor scripts (.function unit f) := ⟨rfl, rfl, _, hFunction, rfl⟩
  have hLeaves := leavesOrderly_inside m₁ (fun m' => { m' with
    frames := m'.frames.tail, unit := m.unit, calls := m'.calls - 1, loops := m.loops })
    hReady rfl rfl ?_ (fun m' hRestores => ?_) h
  · simp only [Eval.withCall, Eval.leaving, Eval.withFrame]
    cases hRun : action m₁ with
    | error stop m' =>
        rw [hRun] at hLeaves
        exact hLeaves
    | ok a m' =>
        rw [hRun] at hLeaves
        exact hLeaves
  · refine ⟨?_, hReady.functions, ?_, fun _ => rfl⟩
    · rintro g (_ | ⟨_, hg⟩)
      · exact .inr ⟨_, hShows⟩
      · exact hReady.frames g hg
    · rintro _ ⟨⟩
      exact ⟨rfl, frame, rfl, hShows⟩
  · have hCalls : m'.calls - 1 = m.calls := by simp [hRestores.calls, m₁]
    rw [hCalls]

end Orderly

end Metagen.Eval
