import Metagen.Proofs.Script.Slices

/-! The order of tokens. Strings with holes nest to any depth, every hole is closed by the first
brace that closes none of its own, and the end mark stands at the end alone. -/

namespace Metagen.Script

/-- Behind `depth` open braces, every brace that closes has one to close, and none stays open. -/
structure Balanced (depth : Nat) (braces : List Symbol) : Prop where
  opened : ∀ before, before <+: braces →
    before.count .rightBrace ≤ depth + before.count .leftBrace
  closed : braces.count .rightBrace = depth + braces.count .leftBrace

namespace Balanced

variable {depth : Nat} {braces : List Symbol}

theorem nil : Balanced 0 [] := by
  refine ⟨fun before hBefore => ?_, rfl⟩
  rw [List.prefix_nil.1 hBefore]
  exact Nat.le_refl 0

/-- Behind an opening brace one more brace is open. -/
theorem leftBrace (h : Balanced (depth + 1) braces) :
    Balanced depth (Symbol.leftBrace :: braces) := by
  refine ⟨fun before hBefore => ?_, ?_⟩
  · rcases List.prefix_cons_iff.1 hBefore with rfl | ⟨rest, rfl, hRest⟩
    · simp
    · have hOpened := h.opened rest hRest
      rw [List.count_cons_of_ne (by decide), List.count_cons_self]
      omega
  · have hClosed := h.closed
    rw [List.count_cons_of_ne (by decide), List.count_cons_self]
    omega

/-- A closing brace may come wherever a brace is open, and leaves one less. -/
theorem rightBrace (h : Balanced depth braces) :
    Balanced (depth + 1) (Symbol.rightBrace :: braces) := by
  refine ⟨fun before hBefore => ?_, ?_⟩
  · rcases List.prefix_cons_iff.1 hBefore with rfl | ⟨rest, rfl, hRest⟩
    · simp
    · have hOpened := h.opened rest hRest
      rw [List.count_cons_self, List.count_cons_of_ne (by decide)]
      omega
  · have hClosed := h.closed
    rw [List.count_cons_self, List.count_cons_of_ne (by decide)]
    omega

end Balanced

mutual

/-- Tokens of code up to an end mark or the end of a hole, and the braces among them; those in the
holes of strings do not count. -/
inductive Word : List TokenKind → List Symbol → Prop where
  | nil : Word [] []
  | plain {kind : TokenKind} {kinds : List TokenKind} {braces : List Symbol}
      (hPlain : kind.IsPlain) (rest : Word kinds braces) :
      Word (kind :: kinds) (kind.braces ++ braces)
  | string {value : String} {code resumed kinds : List TokenKind} {inner braces : List Symbol}
      (hole : Word code inner) (hBalanced : Balanced 0 inner) (text : Resumed resumed)
      (rest : Word kinds braces) :
      Word (.textStart value :: .mark .holeStart ::
        (code ++ .mark .holeEnd :: (resumed ++ kinds))) braces

/-- Tokens of a string behind its first hole. -/
inductive Resumed : List TokenKind → Prop where
  | closed {value : String} : Resumed [.textEnd value]
  | hole {value : String} {code resumed : List TokenKind} {inner : List Symbol}
      (hole : Word code inner) (hBalanced : Balanced 0 inner) (text : Resumed resumed) :
      Resumed (.textPart value :: .mark .holeStart :: (code ++ .mark .holeEnd :: resumed))

end

/-- Tokens that close the strings and holes around them, innermost first, and come to the end. -/
def Closes : List Mode → List TokenKind → Prop
  | [], kinds => ∃ code braces, kinds = code ++ [.mark .endOfInput] ∧ Word code braces
  | .hole _ depth :: outer, kinds => ∃ code inner resumed rest,
      kinds = code ++ .mark .holeEnd :: (resumed ++ rest) ∧ Word code inner ∧
        Balanced depth inner ∧ Resumed resumed ∧ Closes outer rest
  | .text _ :: outer, kinds => ∃ resumed rest,
      kinds = resumed ++ rest ∧ Resumed resumed ∧ Closes outer rest

/-- Tokens that may come next, up to the end. -/
def MayFollow : Next → List TokenKind → Prop
  | .inside modes, kinds => Closes modes kinds
  | .opening triple outer, kinds => ∃ rest, kinds = .mark .holeStart :: rest ∧
      Closes (.hole triple 0 :: outer) rest

/-- What may stand before all code may stand before code that closes something. -/
theorem Closes.prepend {modes : List Mode} {front kinds : List TokenKind} {own : List Symbol}
    (h : Closes modes kinds) (hCode : InCode modes)
    (hFront : ∀ code braces, Word code braces → Word (front ++ code) (own ++ braces))
    (hOwn : modes = [] ∨ own = []) : Closes modes (front ++ kinds) := by
  cases modes with
  | nil =>
      obtain ⟨code, braces, rfl, hWord⟩ := h
      exact ⟨front ++ code, own ++ braces, (List.append_assoc _ _ _).symm, hFront _ _ hWord⟩
  | cons mode outer =>
      cases mode with
      | text triple => exact (hCode (.text triple) rfl).elim
      | hole triple depth =>
          obtain ⟨code, inner, resumed, rest, rfl, hWord, hBalanced, hText, hRest⟩ := h
          obtain rfl := hOwn.resolve_left (List.cons_ne_nil _ _)
          exact ⟨front ++ code, inner, resumed, rest, (List.append_assoc _ _ _).symm,
            hFront _ _ hWord, hBalanced, hText, hRest⟩

/-- A token comes before what may come behind it. -/
theorem TurnsNext.mayFollow {next next' : Next} {stance : Stance} {kind : TokenKind}
    {kinds : List TokenKind} (h : TurnsNext next stance kind next')
    (hLater : MayFollow next' kinds) :
    MayFollow next (kind :: kinds) := by
  cases h with
  | plain hCode hPlain hBraces =>
      change Closes _ ([kind] ++ kinds)
      exact Closes.prepend hLater hCode (fun code braces hWord => .plain hPlain hWord) hBraces
  | leftBrace =>
      obtain ⟨code, inner, resumed, rest, rfl, hWord, hBalanced, hRest⟩ := hLater
      have hBrace : Word (.mark (.symbol .leftBrace) :: code) (.leftBrace :: inner) :=
        .plain trivial hWord
      exact ⟨_, _, resumed, rest, rfl, hBrace, hBalanced.leftBrace, hRest⟩
  | rightBrace =>
      obtain ⟨code, inner, resumed, rest, rfl, hWord, hBalanced, hRest⟩ := hLater
      have hBrace : Word (.mark (.symbol .rightBrace) :: code) (.rightBrace :: inner) :=
        .plain trivial hWord
      exact ⟨_, _, resumed, rest, rfl, hBrace, hBalanced.rightBrace, hRest⟩
  | @textStart modes triple value hCode =>
      obtain ⟨rest, rfl, code, inner, resumed, later, rfl, hWord, hBalanced, hText, hOuter⟩ :=
        hLater
      have hParts : TokenKind.textStart value :: .mark .holeStart ::
          (code ++ .mark .holeEnd :: (resumed ++ later)) =
          (.textStart value :: .mark .holeStart :: (code ++ .mark .holeEnd :: resumed)) ++
            later := by
        simp
      change Closes modes _
      rw [hParts]
      refine Closes.prepend hOuter hCode (fun kinds braces hKinds => ?_) (.inr rfl)
      simpa using Word.string hWord hBalanced hText hKinds
  | holeStart => exact ⟨_, rfl, hLater⟩
  | holeEnd =>
      obtain ⟨resumed, rest, rfl, hText, hOuter⟩ := hLater
      exact ⟨[], [], resumed, rest, rfl, .nil, .nil, hText, hOuter⟩
  | @textPart triple outer value =>
      obtain ⟨rest, rfl, code, inner, resumed, later, rfl, hWord, hBalanced, hText, hOuter⟩ :=
        hLater
      have hResumed : Resumed (.textPart value :: .mark .holeStart ::
          (code ++ .mark .holeEnd :: resumed)) := .hole hWord hBalanced hText
      exact ⟨_, later, by simp, hResumed, hOuter⟩
  | textEnd => exact ⟨_, kinds, rfl, .closed, hLater⟩

theorem Cut.mayFollow {a : Spot} {pieces : List Piece} (h : Cut a pieces) :
    MayFollow a.next (pieces.map fun piece => piece.token.kind) := by
  induction h with
  | finish => exact ⟨[], [], rfl, .nil⟩
  | step _ _ _ hTurns _ ih => exact hTurns.mayFollow ih

def kinds (file : SourceFile) : List TokenKind := (tokens file).1.map Token.kind

/-- With or without faults, the end mark is the last token, and no other token is one. -/
theorem exists_kinds (file : SourceFile) :
    ∃ others, kinds file = others ++ [.mark .endOfInput] ∧ .mark .endOfInput ∉ others := by
  have hStart : Scan.Sound ⟨.origin, file.text.toList⟩ ⟨file.text.toList, .origin, [], {}⟩ :=
    .of_holes (.refl _) (reportStands_empty _) (by simp)
  obtain ⟨more, position, hTokens, -, hStands⟩ :=
    (hStart.takeAll file (2 * file.text.toList.length + 2) []).tokens
  refine ⟨more.map Token.kind, ?_, ?_⟩
  · rw [kinds, tokens, hTokens]
    simp
  · intro hMem
    obtain ⟨t, ht, hKind⟩ := List.mem_map.1 hMem
    exact (hStands t ht).kind hKind

/-- The end mark is the last token and no other token is one. Without faults, what stands before it
is code whose strings and holes nest: in every hole the braces are balanced, and the brace that
would close one too many is the end of the hole. -/
theorem kinds_nesting (file : SourceFile) :
    (∃ others, kinds file = others ++ [.mark .endOfInput] ∧ .mark .endOfInput ∉ others) ∧
      ((tokens file).2.hasProblems = false →
        ∃ code braces, kinds file = code ++ [.mark .endOfInput] ∧ Word code braces) := by
  refine ⟨exists_kinds file, fun hClean => ?_⟩
  obtain ⟨pieces, hCut, hTokens⟩ := exists_cut file hClean
  obtain ⟨code, braces, hKinds, hWord⟩ := hCut.mayFollow
  refine ⟨code, braces, ?_, hWord⟩
  rw [kinds, hTokens, ← hKinds, List.map_map]
  rfl

/-- A string in the hole of a string, behind braces. -/
def nested : SourceFile := .ofText "nested" "\"$\x7b\x7b\x7d\"$\x7bn\x7d\"\x7d\""

theorem kinds_nesting_nested :
    (tokens nested).2.hasProblems = false ∧
      ∃ code braces, kinds nested = code ++ [.mark .endOfInput] ∧ Word code braces := by
  have hClean : (tokens nested).2.hasProblems = false := by decide +kernel
  exact ⟨hClean, (kinds_nesting nested).2 hClean⟩

end Metagen.Script
