import AxisLang.Proofs.Grammar
import AxisLang.Proofs.Trees

/-! The parser of expressions accepts exactly the language of the grammar.
A text is an expression if it can be cut into lexemes, longest first from left to right, and the kinds
of those that are not layout are generated by the start rule. The parser returns the tree of the phrase
that the lexemes spell; every other text is refused with a report about a token or about
characters. -/
namespace AxisLang

variable {ν μ : Type}

def Token.word (x : Token) : String :=
  String.ofList x.text.chars

def TokenKind.piece? (n : ν) : TokenKind → Option (Piece ν)
  | .space => none
  | .comment => none
  | .name => some (.name n)
  | .dots => some (.mark .dots)
  | .star => some (.mark .star)
  | .comma => some (.mark .comma)
  | .opening => some (.mark .opening)
  | .closing => some (.mark .closing)
  | .arrow => some (.mark .arrow)

def pieces (ls : List (TokenKind × List Char)) : List (Piece String) :=
  ls.flatMap fun l => (l.1.piece? (String.ofList l.2)).toList

def tokenPieces : Cursor → List (TokenKind × List Char) → List (Piece Token)
  | _, [] => []
  | c, (k, u) :: ls => (k.piece? (tokenOf c k u)).toList ++ tokenPieces (c.past k u) ls

theorem map_tokenPieces (c : Cursor) (ls : List (TokenKind × List Char)) :
    (tokenPieces c ls).map (Piece.map Token.word) = pieces ls := by
  induction ls generalizing c with
  | nil => rfl
  | cons l ls ih =>
    obtain ⟨k, u⟩ := l
    rw [tokenPieces, List.map_append, ih]
    cases k <;> rfl

theorem kind_tokenPieces (c : Cursor) (ls : List (TokenKind × List Char)) :
    (tokenPieces c ls).map Piece.kind = (ls.map Prod.fst).filter fun k => !k.isLayout := by
  induction ls generalizing c with
  | nil => rfl
  | cons l ls ih =>
    obtain ⟨k, u⟩ := l
    rw [tokenPieces, List.map_append, ih, List.map_cons]
    cases k <;> rfl

theorem TokenKind.isSome_piece? (k : TokenKind) (n : ν) : (k.piece? n).isSome = !k.isLayout := by
  cases k <;> rfl

theorem TokenKind.terminal_inj {k k' : TokenKind} (h : k.terminal = k'.terminal) : k = k' := by
  cases k <;> cases k' <;> first | rfl | exact absurd h (by decide)

theorem fits_tokenOf {c : Cursor} {k : TokenKind} {u : List Char} (layout : k.isLayout = false)
    (p : Piece Token) :
    (tokenOf c k u).Fits p ↔ k.piece? (tokenOf c k u) = some p := by
  cases p with
  | name y =>
    constructor
    · rintro ⟨rfl, kind⟩
      obtain rfl := TokenKind.terminal_inj kind
      rfl
    · intro same
      cases k <;> simp only [TokenKind.piece?, Option.some.injEq, Piece.name.injEq, reduceCtorEq]
        at same
      exact ⟨same, rfl⟩
  | mark m =>
    constructor
    · intro kind
      obtain rfl := TokenKind.terminal_inj kind
      cases m <;> rfl
    · intro same
      cases k <;> simp only [TokenKind.piece?, Option.some.injEq, Piece.mark.injEq, reduceCtorEq]
        at same <;> subst same <;> rfl

theorem fits_tokensOf (c : Cursor) (ls : List (TokenKind × List Char)) (ps : List (Piece Token)) :
    List.Forall₂ Token.Fits (tokensOf c ls) ps ↔ ps = tokenPieces c ls := by
  induction ls generalizing c ps with
  | nil => exact List.forall₂_nil_left_iff
  | cons l ls ih =>
    obtain ⟨k, u⟩ := l
    rw [tokensOf, tokenPieces]
    by_cases layout : k.isLayout = true
    · have none : k.piece? (tokenOf c k u) = none := by
        rw [← Option.not_isSome_iff_eq_none, k.isSome_piece?, layout]
        decide
      rw [if_pos layout, none, ih]
      rfl
    · have layout : k.isLayout = false := by simpa using layout
      rw [if_neg (by simp [layout]), List.forall₂_cons_left_iff]
      constructor
      · rintro ⟨p, ps, fits, rest, rfl⟩
        rw [(fits_tokenOf layout p).mp fits, (ih _ _).mp rest]
        rfl
      · rintro rfl
        obtain ⟨p, piece⟩ : ∃ p, k.piece? (tokenOf c k u) = some p :=
          Option.isSome_iff_exists.mp (by rw [k.isSome_piece?, layout, Bool.not_false])
        refine ⟨p, _, (fits_tokenOf layout p).mpr piece, (ih _ _).mpr rfl, ?_⟩
        rw [piece]
        rfl

namespace Expression

def runConf : RunConf Value := ⟨table, semantics, 0, none⟩

def atStart : Progress Value := ⟨⟨[27], []⟩, {}, none⟩

theorem terminal_notMem_symbols (k : TokenKind) : k.terminal ∉ frame.symbols := by
  cases k <;> decide +kernel

theorem terminal_mem_kinds {k : TokenKind} (h : k.isLayout = false) : k.terminal ∈ kinds := by
  cases k <;> first | exact absurd h (by decide) | decide

theorem kind_tokensOf (c : Cursor) (ls : List (TokenKind × List Char)) :
    ∀ x ∈ tokensOf c ls, x.kind ∈ kinds := by
  induction ls generalizing c with
  | nil => simp [tokensOf]
  | cons l ls ih =>
    obtain ⟨k, u⟩ := l
    rw [tokensOf]
    split
    · exact ih _
    · rename_i layout
      rw [List.forall_mem_cons]
      exact ⟨terminal_mem_kinds (by simpa using layout), ih _⟩

theorem endKind_notMem_symbols : Token.endKind ∉ frame.symbols := by decide +kernel

theorem kinds_notMem_symbols : ∀ k ∈ kinds, k ∉ frame.symbols := by decide +kernel

theorem run_tokens_iff {ts : List Token} (known : ∀ x ∈ ts, x.kind ∈ kinds) {v : Value} :
    runConf.run (.tokens ts) atStart = .ok v ↔ Derives rules semantics ["start"] ts [v] := by
  constructor
  · intro accepted
    have yields := RunConf.run_yields (c := runConf) (p := atStart) (w := []) table_isSound rfl rfl
      endKind_notMem_symbols .start fun x mem => kinds_notMem_symbols _ (known x mem)
    rw [accepted] at yields
    exact yields
  · intro derived
    exact RunConf.run_of_derives (c := runConf) (p := atStart) (f := frame) table_isSound rfl rfl
      endKind_notMem_symbols outlook_isComplete rfl derived known kinds_notMem_symbols

/-- A failure that can be explained is a report on the token, as nothing else goes wrong with plain
trees. -/
theorem report_of_explained {x : Token} {e : Error} (h : Machine.Explained frame semantics x e) :
    ∃ report, report.offender = .token x ∧ e = .unexpectedToken report := by
  obtain reported | token | ⟨r, mem, u, vs, derived, failed⟩ := h
  · exact reported
  · obtain ⟨v, value⟩ := semantics_isTotal.token x
    rw [value] at token
    exact absurd token (by simp)
  · obtain ⟨v, value⟩ := semantics_isTotal.rule r mem u vs derived
    rw [value] at failed
    exact absurd failed (by simp)

theorem isReport_of_explained {x : Token} {e : Error}
    (h : Machine.Explained frame semantics x e) : Parser.isReport e = true := by
  obtain ⟨report, _, rfl⟩ := report_of_explained h
  rfl

theorem isReport_of_run_tokens {ts : List Token} (known : ∀ x ∈ ts, x.kind ∈ kinds)
    {e : RunFailure} (failed : runConf.run (.tokens ts) atStart = .error e) :
    Parser.isReport e.error = true := by
  have yields := RunConf.run_yields (c := runConf) (p := atStart) (w := []) table_isSound rfl rfl
    endKind_notMem_symbols .start fun x mem => kinds_notMem_symbols _ (known x mem)
  rw [failed] at yields
  obtain ⟨x, explained⟩ := yields
  exact isReport_of_explained explained

theorem tree_matches (s : String) :
    (∃ ls, Cut s.toList ls ∧
      tree s = (runConf.run (.tokens (tokensOf {} ls)) atStart).mapError RunFailure.error) ∨
    ∃ e, tree s = .error e ∧ Parser.isReport e = true ∧
      ∀ ls, Cut s.toList ls → ∃ e', runConf.run (.tokens (tokensOf {} ls)) atStart = .error e' := by
  obtain ⟨cl, suited, eq⟩ := tree_eq
  have matched : RunConf.Matches frame runConf cl ⟨Text.ofString s, {}, none⟩ atStart :=
    RunConf.run_matches table_isSound rfl rfl suited terminal_notMem_symbols rfl .start
  have rest : LexState.rest ⟨Text.ofString s, {}, none⟩ = s.toList := rfl
  rw [RunConf.Matches, rest] at matched
  obtain ⟨ls, cut, same⟩ | ⟨e, failed, blamed, others⟩ := matched
  · refine .inl ⟨ls, cut, ?_⟩
    rw [← same]
    exact eq s
  · refine .inr ⟨e.error, ?_, ?_, others⟩
    · exact (eq s).trans (congrArg (Except.mapError RunFailure.error) failed)
    · obtain ⟨r, chars⟩ | ⟨x, explained⟩ := blamed
      · rw [chars]
        rfl
      · exact isReport_of_explained explained

theorem tree_eq_ok_iff {s : String} {v : Value} :
    tree s = .ok v ↔
      ∃ ls, Cut s.toList ls ∧ ∃ e : Phrase Token, e.spell = tokenPieces {} ls ∧ e.tree = v := by
  have accepted (ls : List (TokenKind × List Char)) :
      runConf.run (.tokens (tokensOf {} ls)) atStart = .ok v ↔
        ∃ e : Phrase Token, e.spell = tokenPieces {} ls ∧ e.tree = v := by
    simp only [run_tokens_iff (kind_tokensOf {} ls), derives_start_iff, fits_tokensOf]
  obtain ⟨ls, cut, same⟩ | ⟨e, failed, _, others⟩ := tree_matches s
  · have here : tree s = .ok v ↔ runConf.run (.tokens (tokensOf {} ls)) atStart = .ok v := by
      rw [same]
      cases runConf.run (.tokens (tokensOf {} ls)) atStart <;> simp [Except.mapError]
    rw [here, accepted]
    constructor
    · exact fun spelled => ⟨ls, cut, spelled⟩
    · rintro ⟨ls', cut', spelled⟩
      rwa [cut.unique cut']
  · constructor
    · intro ok
      rw [failed] at ok
      exact absurd ok (by simp)
    · rintro ⟨ls, cut, spelled⟩
      obtain ⟨e', refused⟩ := others ls cut
      rw [(accepted ls).mpr spelled] at refused
      exact absurd refused (by simp)

theorem isReport_of_tree {s : String} {e : Error} (h : tree s = .error e) :
    Parser.isReport e = true := by
  obtain ⟨ls, _, same⟩ | ⟨e', failed, report, _⟩ := tree_matches s
  · rw [h] at same
    cases run : runConf.run (.tokens (tokensOf {} ls)) atStart with
    | ok v => rw [run] at same; exact absurd same (by simp [Except.mapError])
    | error f =>
      rw [run] at same
      rw [Except.error.inj same]
      exact isReport_of_run_tokens (kind_tokensOf {} ls) run
  · rw [h] at failed
    exact Except.error.inj failed ▸ report

/-- The language of the grammar: texts that can be cut into lexemes whose kinds, without layout, are
generated by the start rule. -/
def IsExpression (s : String) : Prop :=
  ∃ ls, Cut s.toList ls ∧ Generates (.rule .start) ((ls.map Prod.fst).filter fun k => !k.isLayout)

theorem isExpression_iff {s : String} :
    IsExpression s ↔ ∃ ls, Cut s.toList ls ∧ ∃ e : Phrase Token, e.spell = tokenPieces {} ls := by
  simp only [IsExpression, ← kind_tokenPieces {}, Spelled.phrase _]

/-- The parser returns a tree for the texts in the language of the grammar, and a report on an
unexpected token or on unexpected characters for all others. -/
theorem tree_accepts_language (s : String) :
    ((∃ v, tree s = .ok v) ↔ IsExpression s) ∧
      ((∃ e, tree s = .error e ∧ Parser.isReport e = true) ↔ ¬ IsExpression s) := by
  have accepts : (∃ v, tree s = .ok v) ↔ IsExpression s := by
    simp only [tree_eq_ok_iff, isExpression_iff]
    constructor
    · rintro ⟨_, ls, cut, e, spelled, _⟩
      exact ⟨ls, cut, e, spelled⟩
    · rintro ⟨ls, cut, e, spelled⟩
      exact ⟨_, ls, cut, e, spelled, rfl⟩
  refine ⟨accepts, ?_⟩
  rw [← accepts]
  cases result : tree s with
  | ok v => simp
  | error e => simpa using isReport_of_tree result

end Expression

end AxisLang
