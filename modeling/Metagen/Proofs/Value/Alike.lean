import Metagen.Proofs.Value.Copy

/-! Values that look the same. Looking the same does not depend on the order of the two values, and
what looks the same as a third value does so altogether. Values without functions look the same as
themselves as long as their containers hold the same, and what looks the same as such a value has no
functions in it either. -/

namespace Metagen

open Relation

variable {α β γ : Type}

/-- What two relations relate one by one, their composition relates one by one. -/
theorem forall₂_comp {P : α → β → Prop} {Q : β → γ → Prop} {xs : List α} {ys : List β}
    {zs : List γ} (h : List.Forall₂ P xs ys) (h' : List.Forall₂ Q ys zs) :
    List.Forall₂ (Comp P Q) xs zs := by
  induction h generalizing zs with
  | nil =>
      cases h'
      exact .nil
  | cons hFirst _ ih =>
      cases h' with
      | cons hNext hRest => exact .cons ⟨_, hFirst, hNext⟩ (ih hRest)

/-- Every item on the right has a partner on the left. -/
theorem exists_of_mem_right {P : α → β → Prop} {xs : List α} {ys : List β}
    (h : List.Forall₂ P xs ys) {y : β} (hy : y ∈ ys) : ∃ x ∈ xs, P x y := by
  induction h with
  | nil => cases hy
  | cons hFirst _ ih =>
      rcases List.mem_cons.1 hy with rfl | hRest
      · exact ⟨_, List.mem_cons_self, hFirst⟩
      · obtain ⟨x, hx, hPair⟩ := ih hRest
        exact ⟨x, List.mem_cons_of_mem _ hx, hPair⟩

theorem biUnique_flip {P : α → β → Prop} (h : Relator.BiUnique P) :
    Relator.BiUnique fun y x => P x y :=
  ⟨fun _ _ _ hy hz => h.2 hy hz, fun _ _ _ hy hz => h.1 hy hz⟩

/-- The composition of two relations that are unique on both sides is so too. -/
theorem biUnique_comp {P : α → β → Prop} {Q : β → γ → Prop} (h : Relator.BiUnique P)
    (h' : Relator.BiUnique Q) : Relator.BiUnique (Comp P Q) := by
  constructor
  · rintro x x' z ⟨y, hx, hy⟩ ⟨y', hx', hy'⟩
    obtain rfl := h'.1 hy hy'
    exact h.1 hx hx'
  · rintro x z z' ⟨y, hx, hy⟩ ⟨y', hx', hy'⟩
    obtain rfl := h.2 hx hx'
    exact h'.2 hy hy'

variable {R Q : Container → Container → Prop} {s t u : Store} {v w x : Value} {c d e : Container}

namespace MatchValue

/-- Matching goes both ways, with what stands for what turned around. -/
theorem flip (h : MatchValue R v w) : MatchValue (fun d c => R c d) w v := by
  cases h with
  | container hv hw h => exact .container hw hv h
  | plain hv => exact .plain hv

/-- Values that match one after the other match, and what stands for what is composed. -/
theorem comp (h : MatchValue R v w) (h' : MatchValue Q w x) : MatchValue (Comp R Q) v x := by
  cases h with
  | container hv hw h =>
      cases h' with
      | container hw' hx h' =>
          obtain rfl := Option.some.inj (hw.symm.trans hw')
          exact .container hv hx ⟨_, h, h'⟩
      | plain hw' =>
          rw [hw'] at hw
          cases hw
  | plain hv =>
      cases h' with
      | container hw' _ _ =>
          rw [hv] at hw'
          cases hw'
      | plain _ => exact .plain hv

/-- A container on the right stands for one on the left. -/
theorem related (h : MatchValue R v w) (hw : w.container? = some d) :
    ∃ c, v.container? = some c ∧ R c d := by
  cases h with
  | container hv hw' h =>
      obtain rfl := Option.some.inj (hw.symm.trans hw')
      exact ⟨_, hv, h⟩
  | plain hv =>
      rw [hv] at hw
      cases hw

/-- Functions are matched by themselves alone. -/
theorem eq_function {f : Nat} (h : MatchValue R v (.function f)) : v = .function f := by
  cases h with
  | container _ hw _ => cases hw
  | plain _ => rfl

theorem self (h : ∀ c, v.container? = some c → R c c) : MatchValue R v v := by
  cases hv : v.container? with
  | none => exact .plain hv
  | some c => exact .container hv hv (h c hv)

theorem mono (h : MatchValue R v w) (hImp : ∀ c d, R c d → Q c d) : MatchValue Q v w := by
  cases h with
  | container hv hw h => exact .container hv hw (hImp _ _ h)
  | plain hv => exact .plain hv

end MatchValue

namespace MatchContents

/-- What matching containers hold matches item by item. -/
theorem contents (h : MatchContents R s t c d) :
    List.Forall₂ (MatchValue R) (s.contents c) (t.contents d) := by
  cases h with
  | list h => exact h
  | record h =>
      exact List.forall₂_map_left_iff.2 (List.forall₂_map_right_iff.2 (h.imp fun _ _ h => h.2))

theorem flip (h : MatchContents R s t c d) : MatchContents (fun d c => R c d) t s d c := by
  cases h with
  | list h => exact .list (h.flip.imp fun _ _ h => h.flip)
  | record h => exact .record (h.flip.imp fun _ _ h => ⟨h.1.symm, h.2.flip⟩)

/-- Contents that match one after the other match, and what stands for what is composed. -/
theorem comp (h : MatchContents R s t c d) (h' : MatchContents Q t u d e) :
    MatchContents (Comp R Q) s u c e := by
  cases h with
  | list h =>
      cases h' with
      | list h' =>
          refine .list ((forall₂_comp h h').imp ?_)
          rintro x z ⟨y, hx, hz⟩
          exact hx.comp hz
  | record h =>
      cases h' with
      | record h' =>
          refine .record ((forall₂_comp h h').imp ?_)
          rintro x z ⟨y, hx, hz⟩
          exact ⟨hx.1.trans hz.1, hx.2.comp hz.2⟩

end MatchContents

namespace Alike

theorem symm (h : Alike s v t w) : Alike t w s v := by
  obtain ⟨R, hUnique, hContents, hMatch⟩ := h
  exact ⟨fun d c => R c d, biUnique_flip hUnique, fun d c h => (hContents c d h).flip, hMatch.flip⟩

/-- A value that looks like one that looks like a third one looks like that one. -/
theorem trans (h : Alike s v t w) (h' : Alike t w u x) : Alike s v u x := by
  obtain ⟨R, hUnique, hContents, hMatch⟩ := h
  obtain ⟨Q, hUnique', hContents', hMatch'⟩ := h'
  refine ⟨Comp R Q, biUnique_comp hUnique hUnique', ?_, hMatch.comp hMatch'⟩
  rintro c e ⟨d, hc, he⟩
  exact (hContents c d hc).comp (hContents' d e he)

end Alike

namespace Store

/-- There is no function in the value, however deep. -/
def IsData (s : Store) (v : Value) : Prop := ∀ f, ¬ s.HoldsValue v (.function f)

/-- If everything inside a value is the same in both stores, then the value looks the same in
both. -/
theorem alike_of_agrees (hClosed : s.Closed) (hv : s.HasValue v)
    (h : ∀ c ∈ s.reached v, s.Agrees t c.cell) : Alike s v t v := by
  refine ⟨fun c d => c = d ∧ c ∈ s.reached v, ⟨?_, ?_⟩, ?_, ?_⟩
  · rintro c d e ⟨rfl, -⟩ ⟨rfl, -⟩
    rfl
  · rintro c d e ⟨rfl, -⟩ ⟨rfl, -⟩
    rfl
  · rintro c _ ⟨rfl, hc⟩
    have hInside : ∀ x ∈ s.contents c,
        MatchValue (fun c d => c = d ∧ c ∈ s.reached v) x x := fun x hx =>
      .self fun e he => ⟨rfl, mem_reached_of_mem_contents hClosed hv hc hx he⟩
    have hSame := h c hc
    cases c with
    | list cell =>
        refine .list ?_
        rw [← show s.listAt cell = t.listAt cell from hSame]
        exact List.forall₂_same.2 hInside
    | record cell =>
        refine .record ?_
        rw [← show s.recordAt cell = t.recordAt cell from hSame]
        exact List.forall₂_same.2 fun x hx => ⟨rfl, hInside x.2 (List.mem_map_of_mem hx)⟩
  · exact .self fun c hc => ⟨rfl, root_mem_reached hc⟩

end Store

/-- What looks like data is data, since all but the containers is the same in both values. -/
theorem Alike.isData (h : Alike s v t w) (hClosed : s.Closed) (hv : s.HasValue v)
    (hData : s.IsData v) : t.IsData w := by
  obtain ⟨R, -, hContents, hMatch⟩ := h
  have hReached : ∀ d ∈ t.reached w, ∃ c ∈ s.reached v, R c d := by
    refine Store.reached_induct (fun d hd => ?_) ?_
    · obtain ⟨c, hc, hPair⟩ := hMatch.related hd
      exact ⟨c, Store.root_mem_reached hc, hPair⟩
    · rintro d ⟨c, hc, hPair⟩ x hx
      obtain ⟨y, hy, hyx⟩ := List.mem_filterMap.1 hx
      obtain ⟨z, hz, hzy⟩ := exists_of_mem_right (hContents c d hPair).contents hy
      obtain ⟨e, he, hNext⟩ := hzy.related hyx
      exact ⟨e, Store.mem_reached_of_mem_contents hClosed hv hc hz he, hNext⟩
  rintro f (rfl | ⟨d, hd, hf⟩)
  · exact hData f (.inl hMatch.eq_function.symm)
  · obtain ⟨c, hc, hPair⟩ := hReached d hd
    obtain ⟨z, hz, hMatched⟩ := exists_of_mem_right (hContents c d hPair).contents hf
    obtain rfl := hMatched.eq_function
    exact hData f (.inr ⟨c, hc, hz⟩)

end Metagen
