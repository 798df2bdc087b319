import AxisLang.Proofs.ValidLexer

/-! A lexer whose terminals passed the check cuts its text into lexemes that are not empty, without a gap,
up to the end of the text or to the first place where no terminal matches. -/
namespace AxisLang

open List (Forall₂)

structure Tile where
  terminal : Terminal
  chars : List Char

variable {c : LexerConf} {lx : Lexer} {sc : Scanner} {st : LexState} {place : Option ParserPlace}
  {s mid rest : List Char} {xs ys : List Tile}

namespace LexerConf

inductive Tiles (c : LexerConf) : List Char → List Tile → List Char → Prop
  | done (s : List Char) : Tiles c s [] s
  | cons {x : Tile} {s rest : List Char} {xs : List Tile} (nonempty : x.chars ≠ [])
      (first : c.FirstMatch x.terminal (x.chars ++ s) x.chars.length) (more : Tiles c s xs rest) :
      Tiles c (x.chars ++ s) (x :: xs) rest

def Stuck (c : LexerConf) (s : List Char) : Prop :=
  s ≠ [] ∧ ∀ t n, c.Left t → ¬ c.Matches t s n

def kept (c : LexerConf) (x : Tile) : Bool :=
  !c.ignore.contains x.terminal.name

theorem Tiles.append (h : c.Tiles s xs mid) (h' : c.Tiles mid ys rest) : c.Tiles s (xs ++ ys) rest := by
  induction h with
  | done s => exact h'
  | cons nonempty first _ ih => exact .cons nonempty first (ih h')

theorem Tiles.concat (h : c.Tiles s xs rest) : s = xs.flatMap (·.chars) ++ rest := by
  induction h with
  | done s => rfl
  | cons _ _ _ ih => rw [List.flatMap_cons, List.append_assoc, ← ih]

theorem Tiles.length_le (h : c.Tiles s xs rest) : xs.length + rest.length ≤ s.length := by
  induction h with
  | done s => simp
  | cons nonempty _ _ ih =>
    have pos := List.length_pos_iff.mpr nonempty
    rw [List.length_cons, List.length_append]
    omega

theorem Tiles.each (h : c.Tiles s xs rest) {before after : List Tile} {x : Tile}
    (eq : xs = before ++ x :: after) :
    x.chars ≠ [] ∧
      c.FirstMatch x.terminal (x.chars ++ (after.flatMap (·.chars) ++ rest)) x.chars.length := by
  induction h generalizing before with
  | done s => simp at eq
  | cons nonempty first more ih =>
    cases before with
    | nil =>
      obtain ⟨rfl, rfl⟩ := List.cons.inj eq
      rw [← more.concat]
      exact ⟨nonempty, first⟩
    | cons y before =>
      exact ih (List.cons.inj eq).2

end LexerConf

namespace Lexer

open LexerConf (Tiles Stuck)

structure Shows (sc : Scanner) (t : Token) (x : Tile) : Prop where
  text : t.text.chars = x.chars
  kind : t.kind = (sc.keyword? x.terminal.name x.chars).getD x.terminal.name

/-- What a request can come to, and the lexemes it reads: those it passes over and, if it finds a token,
that of the token. -/
inductive Answer (c : LexerConf) (sc : Scanner) (st : LexState) : List Tile → Scan × LexState → Prop
  | finished {xs : List Tile} {st' : LexState} (tiles : c.Tiles st.rest xs [])
      (ignored : ∀ x ∈ xs, c.kept x = false) : Answer c sc st xs (.finished, st')
  | failed {xs : List Tile} {st' : LexState} {report : CharReport} (tiles : c.Tiles st.rest xs st'.rest)
      (ignored : ∀ x ∈ xs, c.kept x = false) (stuck : c.Stuck st'.rest)
      (pos : report.pos = st'.cursor.pos) (text : st'.text = st.text) :
      Answer c sc st xs (.failed (.unexpectedChars report), st')
  | token {xs : List Tile} {x : Tile} {t : Token} {st' : LexState}
      (tiles : c.Tiles st.rest (xs ++ [x]) st'.rest) (ignored : ∀ x ∈ xs, c.kept x = false)
      (kept : c.kept x = true) (shows : Shows sc t x) (text : st'.text = st.text) :
      Answer c sc st (xs ++ [x]) (.token t, st')

structure Front (c : LexerConf) (st : LexState) (x : Tile) (st' : LexState) : Prop where
  nonempty : x.chars ≠ []
  split : st.rest = x.chars ++ st'.rest
  first : c.FirstMatch x.terminal st.rest x.chars.length
  text : st'.text = st.text

theorem Front.tiles {x : Tile} {st' : LexState} (front : Front c st x st')
    (h : c.Tiles st'.rest xs rest) : c.Tiles st.rest (x :: xs) rest := by
  have first := front.first
  rw [front.split] at first ⊢
  exact .cons front.nonempty first h

theorem Front.pass {x : Tile} {st' : LexState} {p : Scan × LexState} (front : Front c st x st')
    (ignored : c.kept x = false) (h : Answer c sc st' xs p) : Answer c sc st (x :: xs) p := by
  cases h with
  | finished tiles others =>
    exact .finished (front.tiles tiles) (List.forall_mem_cons.mpr ⟨ignored, others⟩)
  | failed tiles others stuck pos text =>
    exact .failed (front.tiles tiles) (List.forall_mem_cons.mpr ⟨ignored, others⟩) stuck pos
      (text.trans front.text)
  | token tiles others kept shows text =>
    rw [← List.cons_append]
    exact .token (front.tiles tiles) (List.forall_mem_cons.mpr ⟨ignored, others⟩) kept shows
      (text.trans front.text)

theorem front_of_found {t : Terminal} {n : Nat} (first : c.FirstMatch t st.rest n) (pos : 0 < n)
    (bound : n ≤ st.rest.length) : Front c st ⟨t, st.rest.take n⟩ (lx.behind st t.name n) where
  nonempty := by
    rw [← List.length_pos_iff, List.length_take]
    omega
  split := by rw [behind_rest bound, List.take_append_drop]
  first := by
    rw [List.length_take, Nat.min_eq_left bound]
    exact first
  text := behind_text lx st t.name n

theorem afterSettling_ignored {kind : String} {n : Nat} {v : Value}
    (ignored : lx.ignore.contains kind = true) (pos : 0 < n) (bound : n ≤ st.rest.length) :
    lx.afterSettling place st kind n (.ok v) = lx.next place (lx.behind st kind n) := by
  have nonempty : 0 < (st.text.extract st.cursor.pos n).chars.length := by
    rw [Text.extract_chars, List.length_take]
    exact Nat.lt_min.mpr ⟨pos, by rw [LexState.rest] at bound; omega⟩
  simp only [afterSettling, ignored, if_true, nonempty]

theorem afterSettling_kept {kind : String} {n : Nat} {t : Token}
    (kept : lx.ignore.contains kind = false) :
    lx.afterSettling place st kind n (.ok (.token t)) =
      (.token t, { lx.behind st kind n with last := some t }) := by
  simp only [afterSettling, kept, Bool.false_eq_true, if_false]

theorem rest_eq_nil_iff : st.rest = [] ↔ ¬ st.cursor.pos < st.text.length := by
  rw [← List.length_eq_zero_iff, LexState.length_rest, LexState.remaining]
  omega

theorem filter_ignored (ignored : ∀ x ∈ xs, c.kept x = false) : xs.filter c.kept = [] := by
  rw [List.filter_eq_nil_iff]
  intro x mem
  rw [ignored x mem]
  exact Bool.false_ne_true

/-- The tokens from a request on, by what the request came to. -/
def tokensAfter (lx : Lexer) (fuel : Nat) : Scan × LexState → List Token × Option Error × LexState
  | (.token t, st) => (t :: (lx.tokensFrom fuel st).1, (lx.tokensFrom fuel st).2)
  | (.finished, st) => ([], none, st)
  | (.failed e, st) => ([], some e, st)

theorem tokensFrom_succ (lx : Lexer) (fuel : Nat) (st : LexState) :
    lx.tokensFrom (fuel + 1) st = lx.tokensAfter fuel (lx.next none st) := by
  rw [tokensFrom]
  obtain ⟨scan, st'⟩ := lx.next none st
  cases scan <;> rfl

section Runs

variable (made : Made c lx) (told : c.Told sc) (scanner : lx.scanner = .ok sc)
  (free : c.callbacks = [])
include made told scanner free

/-- A request passes over ignored lexemes and ends with the first that is not, at the end of the text,
or where no terminal matches. -/
theorem next_answer (place : Option ParserPlace) (st : LexState) (fits : st.text.bytes = c.bytes) :
    ∃ xs, Answer c sc st xs (lx.next place st) := by
  induction size : st.rest.length using Nat.strongRecOn generalizing st with
  | ind size ih =>
    subst size
    by_cases more : st.cursor.pos < st.text.length
    · have asked : lx.Asked sc st := ⟨more, scanner, fits.trans made.bytes.symm⟩
      cases found : sc.scan st.rest with
      | none =>
        rw [asked.next_unmatched found]
        have stuck : c.Stuck st.rest := ⟨by rw [ne_eq, rest_eq_nil_iff, not_not]; exact more, told.unmatched _ found⟩
        exact ⟨[], .failed (.done _) (by simp) stuck rfl rfl⟩
      | some p =>
        obtain ⟨kind, n⟩ := p
        obtain ⟨t, rfl, first, pos, bound⟩ := told.found _ _ _ found
        have front : Front c st ⟨t, st.rest.take n⟩ (lx.behind st t.name n) :=
          front_of_found first pos bound
        have settled : lx.settle sc (lx.foundToken st t.name n) =
            .ok (.token (retype sc (lx.foundToken st t.name n))) := by
          rw [settle, made.callbacks, free]
          rfl
        rw [asked.next_found found, settled]
        by_cases ignored : lx.ignore.contains t.name = true
        · rw [afterSettling_ignored ignored pos bound]
          have shorter : (lx.behind st t.name n).rest.length < st.rest.length := by
            rw [behind_rest bound, List.length_drop]
            omega
          obtain ⟨xs, answer⟩ := ih _ shorter (lx.behind st t.name n) fits rfl
          rw [made.ignore] at ignored
          exact ⟨_ :: xs, front.pass (by rw [LexerConf.kept, ignored]; rfl) answer⟩
        · rw [afterSettling_kept (by simpa using ignored)]
          rw [made.ignore] at ignored
          have shows : Shows sc (retype sc (lx.foundToken st t.name n)) ⟨t, st.rest.take n⟩ := by
            constructor
            · rw [retype_text, foundToken_text]
            · rw [retype_kind, foundToken_kind, foundToken_text]
          exact ⟨[] ++ [_], .token (front.tiles (.done _)) (by simp)
            (by rw [LexerConf.kept, Bool.not_eq_true' , ← Bool.not_eq_true]; exact ignored) shows rfl⟩
    · rw [next_at_end more]
      have empty := rest_eq_nil_iff.mpr more
      refine ⟨[], .finished ?_ (by simp)⟩
      rw [empty]
      exact .done []

theorem tokensFrom_tiles (fuel : Nat) (st : LexState) (fits : st.text.bytes = c.bytes)
    (enough : st.rest.length < fuel) :
    ∃ xs rest, c.Tiles st.rest xs rest ∧
      Forall₂ (Shows sc) (lx.tokensFrom fuel st).1 (xs.filter c.kept) ∧
      (((lx.tokensFrom fuel st).2.1 = none ∧ rest = []) ∨
        ∃ report, (lx.tokensFrom fuel st).2.1 = some (.unexpectedChars report) ∧ c.Stuck rest ∧
          report.pos + rest.length = st.text.length) := by
  induction fuel generalizing st with
  | zero => omega
  | succ fuel ih =>
    obtain ⟨xs, answer⟩ := next_answer made told scanner free none st fits
    rw [tokensFrom_succ]
    generalize lx.next none st = p at answer
    cases answer with
    | finished tiles ignored =>
      refine ⟨xs, [], tiles, ?_, .inl ⟨rfl, rfl⟩⟩
      rw [filter_ignored ignored]
      exact .nil
    | failed tiles ignored stuck pos text =>
      rename_i st' report
      refine ⟨xs, st'.rest, tiles, ?_, .inr ⟨report, rfl, stuck, ?_⟩⟩
      · rw [filter_ignored ignored]
        exact .nil
      · have more := stuck.1
        rw [ne_eq, rest_eq_nil_iff, not_not] at more
        rw [LexState.length_rest, LexState.remaining, pos, ← text]
        omega
    | token tiles ignored kept shows text =>
      rename_i xs x t st'
      have shorter := tiles.length_le
      rw [List.length_append, List.length_singleton] at shorter
      obtain ⟨ys, rest, later, tokens, ending⟩ := ih st' (text ▸ fits) (by omega)
      refine ⟨xs ++ [x] ++ ys, rest, tiles.append later, ?_, text ▸ ending⟩
      rw [List.filter_append, List.filter_append, filter_ignored ignored, List.filter_singleton, kept]
      exact .cons shows tokens

theorem tokensFrom_stable {fuel fuel' : Nat} {st : LexState} (fits : st.text.bytes = c.bytes)
    (enough : st.rest.length < fuel) (enough' : st.rest.length < fuel') :
    lx.tokensFrom fuel st = lx.tokensFrom fuel' st := by
  induction fuel generalizing fuel' st with
  | zero => omega
  | succ fuel ih =>
    obtain ⟨more, rfl⟩ := Nat.exists_eq_succ_of_ne_zero (Nat.ne_zero_of_lt enough')
    obtain ⟨xs, answer⟩ := next_answer made told scanner free none st fits
    rw [tokensFrom_succ, tokensFrom_succ]
    generalize lx.next none st = p at answer
    cases answer with
    | finished => rfl
    | failed => rfl
    | token tiles ignored kept shows text =>
      have shorter := tiles.length_le
      rw [List.length_append, List.length_singleton] at shorter
      have same := ih (text ▸ fits) (by omega) (by omega : _ < more)
      simp only [tokensAfter, same]

end Runs

/-- A lexer whose terminals passed the check, without actions, cuts every text into lexemes: they are not
empty, concatenate to what was consumed, and each is what the first terminal takes that matches there.
After at most as many tokens as the text has characters it ends, at the end of the text or where no
terminal matches. -/
theorem tokens_tile_text (defined : define c = .ok lx) (checked : c.Checked) (free : c.callbacks = [])
    (text : Text) (fits : text.bytes = c.bytes) :
    ∃ sc tiles rest, lx.scanner = .ok sc ∧
      text.chars = tiles.flatMap (·.chars) ++ rest ∧
      (∀ before x after, tiles = before ++ x :: after →
        x.chars ≠ [] ∧
          c.FirstMatch x.terminal (x.chars ++ (after.flatMap (·.chars) ++ rest)) x.chars.length) ∧
      Forall₂ (Shows sc) (lx.tokens text).1 (tiles.filter c.kept) ∧
      (lx.tokens text).1.length ≤ text.length ∧
      (((lx.tokens text).2.1 = none ∧ rest = []) ∨
        ∃ report, (lx.tokens text).2.1 = some (.unexpectedChars report) ∧ c.Stuck rest ∧
          report.pos = (tiles.flatMap (·.chars)).length) ∧
      ∀ fuel, text.length < fuel → lx.tokensFrom fuel { text } = lx.tokens text := by
  have made := made_of_define defined
  obtain ⟨sc, scanner, told⟩ := checked.exists_scanner made
  have enough : (LexState.rest { text }).length < text.length + 1 := Nat.lt_succ_self _
  obtain ⟨tiles, rest, tiling, tokens, ending⟩ :=
    tokensFrom_tiles made told scanner free (text.length + 1) { text } fits enough
  have concat : text.chars = tiles.flatMap (·.chars) ++ rest := tiling.concat
  refine ⟨sc, tiles, rest, scanner, concat, fun _ _ _ => tiling.each, tokens, ?_, ?_, ?_⟩
  · calc (lx.tokens text).1.length = (tiles.filter c.kept).length := tokens.length_eq
      _ ≤ tiles.length := List.length_filter_le _ _
      _ ≤ text.length := by
        have bound := tiling.length_le
        exact Nat.le_trans (Nat.le_add_right _ _) bound
  · refine ending.imp_right ?_
    rintro ⟨report, failed, stuck, pos⟩
    refine ⟨report, failed, stuck, ?_⟩
    have total := congrArg List.length concat
    rw [List.length_append] at total
    change report.pos + rest.length = (text.chars.length : Int) at pos
    omega
  · intro fuel more
    exact tokensFrom_stable made told scanner free fits more enough

def blankConf : LexerConf where
  terminals :=
    [⟨"ID", { kind := .regex, value := "[a-z]+", flags := ["i"] }, 0⟩,
      ⟨"IF", { kind := .literal, value := "if" }, 0⟩, ⟨"PLUS", { kind := .literal, value := "+" }, 1⟩,
      ⟨"SP", { kind := .regex, value := " +" }, 0⟩]
  ignore := ["SP"]
  known := []

theorem checked_blankConf : blankConf.Checked where
  validate := rfl
  patterns := rfl
  spaced := rfl
  plain := by
    intro t mem
    constructor
    · revert t
      simp [blankConf]
    · have unknown : ∀ t ∈ blankConf.terminals, t.pattern.knownWidth = none := by decide
      rw [unknown t mem]
      simp
  named := by decide +kernel
  onBytes bytes := Bool.noConfusion bytes

theorem tokens_tile_text_blanks :
    ∃ lx sc, ∃ tiles : List Tile, ∃ rest, define blankConf = .ok lx ∧ blankConf.Checked ∧
      lx.scanner = .ok sc ∧ "If  a+?".toList = tiles.flatMap (·.chars) ++ rest ∧
      Forall₂ (Shows sc) (lx.tokens (Text.ofString "If  a+?")).1 (tiles.filter blankConf.kept) ∧
      (lx.tokens (Text.ofString "If  a+?")).1.length = 3 ∧ blankConf.Stuck rest := by
  have built : ((define blankConf).toOption.any fun lx =>
      (lx.tokens (Text.ofString "If  a+?")).1.length == 3 &&
        (lx.tokens (Text.ofString "If  a+?")).2.1.isSome) = true := by
    decide +kernel
  obtain ⟨lx, defined, run⟩ := exists_ok_of_any built
  rw [Bool.and_eq_true, beq_iff_eq] at run
  obtain ⟨sc, tiles, rest, scanner, concat, _, tokens, _, ending, _⟩ :=
    tokens_tile_text defined checked_blankConf rfl (Text.ofString "If  a+?") rfl
  refine ⟨lx, sc, tiles, rest, defined, checked_blankConf, scanner, concat, tokens, run.1, ?_⟩
  rcases ending with ⟨none, _⟩ | ⟨report, _, stuck, _⟩
  · rw [none] at run
    cases run.2
  · exact stuck

end Lexer

end AxisLang
