import AxisLang.Proofs.LexerAgreement

/-! Where tokens stand, and where errors are reported.
A place is a number of characters from the beginning of a text. Its line and its column are told by the
line ends before it. The cursor of a lexer counts them lexeme by lexeme, and looks for line ends only in
layout; it agrees with the text at every place, so the positions of tokens and of reports are exact. -/
namespace AxisLang

def lineAt (cs : List Char) (n : Nat) : Nat :=
  1 + (cs.take n).count '\n'

/-- The place after the last line end before a place. -/
def lineStartAt (cs : List Char) (n : Nat) : Nat :=
  ((cs.take n).reverse.dropWhile (· != '\n')).length

def columnAt (cs : List Char) (n : Nat) : Int :=
  n - lineStartAt cs n + 1

theorem countPart_newline (s : List Char) : countPart LexState.newline 0 s = s.count '\n' := by
  induction s with
  | nil => rfl
  | cons c s ih =>
    have skip : LexState.newline.length - 1 = 0 := rfl
    rw [countPart, skip, ih, List.count_cons]
    by_cases h : c = '\n'
    · simp [h, LexState.newline, List.isPrefixOf, Nat.add_comm]
    · simp [h, Ne.symm h, LexState.newline, List.isPrefixOf]

theorem lastPart?_of_notMem {v : List Char} (h : '\n' ∉ v) : lastPart? LexState.newline v = none := by
  induction v with
  | nil => rfl
  | cons c v ih =>
    rw [List.mem_cons, not_or] at h
    rw [lastPart?, ih h.2]
    simp [LexState.newline, List.isPrefixOf, h.1]

theorem lastPart?_newline (u : List Char) {v : List Char} (h : '\n' ∉ v) :
    lastPart? LexState.newline (u ++ '\n' :: v) = some u.length := by
  induction u with
  | nil =>
    rw [List.nil_append, lastPart?, lastPart?_of_notMem h]
    rfl
  | cons c u ih => rw [List.cons_append, lastPart?, ih, List.length_cons]

namespace Cursor

def after (front : List Char) : Cursor where
  pos := front.length
  line := 1 + front.count '\n'
  lineStart := (front.reverse.dropWhile (· != '\n')).length

theorem lineStart_after (u : List Char) {v : List Char} (h : '\n' ∉ v) :
    (after (u ++ '\n' :: v)).lineStart = u.length + 1 := by
  have back : (u ++ '\n' :: v).reverse = v.reverse ++ '\n' :: u.reverse := by simp
  rw [after, back, List.dropWhile_append_of_pos]
  · simp
  · intro c mem
    simp only [bne_iff_ne, ne_eq]
    rintro rfl
    exact h (List.mem_reverse.mp mem)

theorem feed_after (front : List Char) {u : List Char} {test : Bool} (h : test = false → '\n' ∉ u) :
    (after front).feed LexState.newline test u = after (front ++ u) := by
  have lines : (if test then countPart LexState.newline 0 u else 0) = u.count '\n' := by
    cases test with
    | true => exact countPart_newline u
    | false => exact (List.count_eq_zero.mpr (h rfl)).symm
  simp only [feed, lines]
  -- the line starts after the last line end, which is in the new part if there is one
  by_cases some : '\n' ∈ u
  · obtain ⟨a, b, rfl, last⟩ := exists_last_newline some
    rw [if_neg (by simp), lastPart?_newline a last]
    have whole := lineStart_after (front ++ a) last
    rw [List.append_assoc] at whole
    have place : after (front ++ (a ++ '\n' :: b)) = ⟨(front ++ (a ++ '\n' :: b)).length,
        1 + (front ++ (a ++ '\n' :: b)).count '\n', (front ++ a).length + 1⟩ := by
      rw [← whole]
      rfl
    rw [place]
    simp [after, Nat.add_assoc]
  · have same : (after (front ++ u)).lineStart = (after front).lineStart := by
      simp only [after]
      rw [List.reverse_append, List.dropWhile_append_of_pos]
      intro c mem
      simp only [bne_iff_ne, ne_eq]
      rintro rfl
      exact some (List.mem_reverse.mp mem)
    rw [if_pos (List.count_eq_zero.mpr some)]
    have place : after (front ++ u) =
        ⟨(front ++ u).length, 1 + (front ++ u).count '\n', (after front).lineStart⟩ := by
      rw [← same]
      rfl
    rw [place, List.count_append, List.count_eq_zero.mpr some, List.length_append]
    rfl

end Cursor

theorem TokenKind.Spells.newline_notMem {k : TokenKind} {u : List Char} (h : k.Spells u)
    (read : k.isLayout = false) : '\n' ∉ u := by
  cases k with
  | space => exact absurd read (by decide)
  | comment => exact absurd read (by decide)
  | name =>
    obtain ⟨c, rest, rfl, start, parts⟩ := h
    rw [List.mem_cons, not_or]
    constructor
    · rintro rfl
      exact absurd start (by decide)
    · intro mem
      exact absurd (parts _ mem) (by decide)
  | _ =>
    obtain rfl := Option.some.inj h
    decide

theorem Cursor.past_after (front : List Char) {k : TokenKind} {u : List Char} (h : k.Spells u) :
    (after front).past k u = after (front ++ u) :=
  feed_after front h.newline_notMem

theorem Cursor.pastAll_after {front s rest : List Char} {ls : List (TokenKind × List Char)}
    (h : CutTo s ls rest) : (after front).pastAll ls = after (front ++ ls.flatMap Prod.snd) := by
  induction h generalizing front with
  | nil => rw [List.flatMap_nil, List.append_nil]; rfl
  | cons longest _ ih =>
    rw [pastAll, past_after front longest.spells, ih, List.flatMap_cons, List.append_assoc]

section Places

variable {cs front u rest : List Char} {k : TokenKind} {a b n m : Nat} {x : Token} {xs : List Token}

def between (cs : List Char) (a b : Nat) : List Char :=
  (cs.take b).drop a

structure Token.StandsAt (cs : List Char) (a b : Nat) (x : Token) : Prop where
  order : a < b
  inside : b ≤ cs.length
  text : x.text = ⟨between cs a b, false⟩
  start : x.start = some (a : Int)
  line : x.line = some (lineAt cs a : Int)
  column : x.column = some (columnAt cs a)
  stop : x.stop = some (b : Int)
  endLine : x.endLine = some (lineAt cs b : Int)
  endColumn : x.endColumn = some (columnAt cs b)

/-- The text is a row of blanks and comments. -/
def IsLayout (u : List Char) : Prop :=
  ∃ ls : List (TokenKind × List Char),
    (∀ l ∈ ls, l.1.isLayout = true ∧ l.1.Spells l.2) ∧ u = ls.flatMap Prod.snd

/-- The tokens stand one after the other between two places, with only layout before, between and after
them. -/
inductive Placed (cs : List Char) : Nat → List Token → Nat → Prop
  | nil {n m : Nat} (order : n ≤ m) (inside : m ≤ cs.length) (gap : IsLayout (between cs n m)) :
      Placed cs n [] m
  | cons {n a b m : Nat} {x : Token} {xs : List Token} (order : n ≤ a)
      (gap : IsLayout (between cs n a)) (stands : x.StandsAt cs a b) (later : Placed cs b xs m) :
      Placed cs n (x :: xs) m

inductive Error.LocatedAt (cs : List Char) (n : Nat) : Error → Prop
  | chars {report : CharReport} (inside : n < cs.length) (pos : report.pos = n)
      (line : report.line = lineAt cs n) (column : report.column = columnAt cs n) :
      LocatedAt cs n (.unexpectedChars report)
  | token {report : TokenReport} {x : Token} {b : Nat} (offender : report.offender = .token x)
      (stands : x.StandsAt cs n b) : LocatedAt cs n (.unexpectedToken report)

/-- The error is about the end of a text, and carries the position of the last token before it, or of
the beginning if there is none. -/
inductive Error.AtEnd (last : Option Token) : Error → Prop
  | token {report : TokenReport} {x : Token} (offender : report.offender = .token x)
      (kind : x.kind = Token.endKind) (start : x.start = last.elim (some 0) Token.start)
      (line : x.line = last.elim (some 1) Token.line)
      (column : x.column = last.elim (some 1) Token.column) : AtEnd last (.unexpectedToken report)

theorem line_after (front rest : List Char) :
    (Cursor.after front).line = lineAt (front ++ rest) front.length := by
  rw [lineAt, List.take_left]
  rfl

theorem column_after (front rest : List Char) :
    (Cursor.after front).column = columnAt (front ++ rest) front.length := by
  rw [columnAt, lineStartAt, List.take_left]
  rfl

theorem between_append (front u rest : List Char) :
    between (front ++ (u ++ rest)) front.length (front ++ u).length = u := by
  rw [between, ← List.append_assoc, List.take_left, List.drop_left]

theorem between_trans (ab : a ≤ b) (bn : b ≤ n) :
    between cs a n = between cs a b ++ between cs b n := by
  have front : between cs a b = (between cs a n).take (b - a) := by
    rw [between, between, List.drop_take, List.drop_take, List.take_take, Nat.min_eq_left (by omega)]
  have back : between cs b n = (between cs a n).drop (b - a) := by
    rw [between, between, List.drop_drop, Nat.add_sub_cancel' ab]
  rw [front, back, List.take_append_drop]

theorem stands_tokenOf (spells : k.Spells u) :
    (tokenOf (.after front) k u).StandsAt (front ++ (u ++ rest)) front.length (front ++ u).length := by
  have start : (Cursor.after front).line = lineAt (front ++ (u ++ rest)) front.length ∧
      (Cursor.after front).column = columnAt (front ++ (u ++ rest)) front.length :=
    ⟨line_after .., column_after ..⟩
  have stop : (Cursor.after (front ++ u)).line =
        lineAt (front ++ (u ++ rest)) (front ++ u).length ∧
      (Cursor.after (front ++ u)).column =
        columnAt (front ++ (u ++ rest)) (front ++ u).length := by
    rw [← List.append_assoc]
    exact ⟨line_after .., column_after ..⟩
  obtain ⟨c, u', rfl, _⟩ := spells.ofChar
  rw [tokenOf, Cursor.past_after front spells]
  refine ⟨by simp, by simp, ?_, rfl, ?_, ?_, rfl, ?_, ?_⟩
  · rw [between_append]
    rfl
  · rw [← start.1]
    rfl
  · rw [← start.2]
    rfl
  · rw [← stop.1]
    rfl
  · rw [← stop.2]
    rfl

theorem Placed.of_layout (spells : k.Spells u) (layout : k.isLayout = true)
    (h : Placed (front ++ (u ++ rest)) (front ++ u).length xs m) :
    Placed (front ++ (u ++ rest)) front.length xs m := by
  have shorter : front.length ≤ (front ++ u).length := by simp
  have wider {a : Nat} (order : (front ++ u).length ≤ a)
      (gap : IsLayout (between (front ++ (u ++ rest)) (front ++ u).length a)) :
      IsLayout (between (front ++ (u ++ rest)) front.length a) := by
    obtain ⟨ls, layouts, same⟩ := gap
    refine ⟨(k, u) :: ls, List.forall_mem_cons.mpr ⟨⟨layout, spells⟩, layouts⟩, ?_⟩
    rw [between_trans shorter order, between_append, same, List.flatMap_cons]
  cases h with
  | nil order inside gap => exact .nil (shorter.trans order) inside (wider order gap)
  | cons order gap stands later => exact .cons (shorter.trans order) (wider order gap) stands later

theorem Placed.empty (inside : n ≤ cs.length) : Placed cs n [] n := by
  refine .nil le_rfl inside ⟨[], by simp, ?_⟩
  rw [between, List.drop_take, Nat.sub_self, List.take_zero, List.flatMap_nil]

theorem placed_tokensOf (front : List Char) {s : List Char} {ls : List (TokenKind × List Char)}
    (h : CutTo s ls rest) :
    Placed (front ++ s) front.length (tokensOf (.after front) ls)
      (front ++ ls.flatMap Prod.snd).length := by
  induction h generalizing front with
  | nil =>
    rw [List.flatMap_nil, List.append_nil]
    exact .empty (by simp)
  | @cons k u s ls rest longest _ ih =>
    have spells := longest.spells
    have later := ih (front ++ u)
    rw [List.append_assoc, List.append_assoc] at later
    rw [tokensOf, Cursor.past_after front spells, List.flatMap_cons]
    by_cases layout : k.isLayout = true
    · rw [if_pos layout]
      exact later.of_layout spells layout
    · have start : Placed (front ++ (u ++ s)) front.length [] front.length := .empty (by simp)
      rw [if_neg layout]
      cases start with
      | nil order _ gap => exact .cons order gap (stands_tokenOf spells) later

theorem Placed.stands (h : Placed cs n xs m) (mem : x ∈ xs) : ∃ a b, x.StandsAt cs a b := by
  induction h with
  | nil => exact absurd mem (by simp)
  | @cons n a b m y ys _ _ stands _ ih =>
    obtain rfl | later := List.mem_cons.mp mem
    · exact ⟨a, b, stands⟩
    · exact ih later

theorem Ends.locatedAt {ks : List TokenKind} {e : Error}
    (h : Ends ks (.after front) rest (some e)) : e.LocatedAt (front ++ rest) front.length := by
  cases h with
  | @unwanted k n report front' read others offender =>
    obtain ⟨⟨u, later, rfl, rfl, spells⟩, _⟩ :=
      TokenKind.length?_eq_some (length?_eq_some_iff.mpr front')
    rw [List.take_left] at offender
    exact .token offender (stands_tokenOf spells)
  | stray more _ pos line column =>
    refine .chars ?_ pos ?_ ?_
    · have positive := List.length_pos_of_ne_nil more
      rw [List.length_append]
      omega
    · rw [line, line_after]
    · rw [column, column_after]

theorem endToken_of_stands (stands : x.StandsAt cs a b) :
    RunConf.endToken (some x) = Token.borrow Token.endKind ⟨[], false⟩ x := by
  have long : 0 < (between cs a b).length := by
    have inside := stands.inside
    have order := stands.order
    rw [between, List.length_drop, List.length_take]
    omega
  have some : x.content.isEmpty = false := by
    rw [Token.content, stands.text]
    simpa [List.isEmpty_eq_false_iff] using List.ne_nil_of_length_pos long
  simp only [RunConf.endToken, some, Bool.false_eq_true, if_false]

theorem Lexed.placed {ending : Cursor → List Char → Option Error → Prop} {s : String}
    {e : Option Error} (h : Lexed ending { text := Text.ofString s } xs e) :
    ∃ ls rest, CutTo s.toList ls rest ∧ xs = tokensOf {} ls ∧
      Placed s.toList 0 xs (ls.flatMap Prod.snd).length ∧
      ending (.after (ls.flatMap Prod.snd)) rest e := by
  obtain ⟨ls, rest, cut, rfl, ends⟩ := h
  have start : ({} : Cursor) = .after [] := rfl
  refine ⟨ls, rest, cut, rfl, placed_tokensOf [] cut, ?_⟩
  rw [← List.nil_append (ls.flatMap Prod.snd), ← Cursor.pastAll_after cut, ← start]
  exact ends

theorem atEnd_of_placed {report : TokenReport} (h : Placed cs n xs m)
    (offender : report.offender = .token (RunConf.endToken xs.getLast?)) :
    (Error.unexpectedToken report).AtEnd xs.getLast? := by
  cases last : xs.getLast? with
  | none =>
    rw [last] at offender
    exact .token offender rfl rfl rfl rfl
  | some x =>
    obtain ⟨a, b, stands⟩ := h.stands (List.mem_of_getLast? last)
    rw [last, endToken_of_stands stands] at offender
    exact .token offender rfl rfl rfl rfl

end Places

namespace Expression

variable {p : Parser} {cl : ContextualLexer}

theorem semantics_of_loaded (loaded : parser = .ok p) : p.semantics = semantics := by
  obtain ⟨p', _, loaded', _, same⟩ := parser_loads
  obtain rfl : p = p' := Except.ok.inj (loaded.symm.trans loaded')
  exact same

theorem error_located (loaded : parser = .ok p) (lexers : p.lexing = .contextual cl) {s : String}
    {e : Error} (failed : p.parse s = .error e) : (∃ n, e.LocatedAt s.toList n) ∨
      e.AtEnd (cl.root.tokens (Text.ofString s)).1.getLast? := by
  have standard := standard_of_loaded loaded lexers
  obtain ⟨ls, rest, cut, fed, placed, closes⟩ := (standard.lexed_fed s).placed
  rw [standard.parse_eq] at failed
  generalize (runUnder p.semantics).run (.text cl ⟨Text.ofString s, {}, none⟩)
    ⟨⟨[27], []⟩, {}, none⟩ = result at failed closes
  rw [semantics_of_loaded loaded] at closes
  cases closes with
  | accepted => exact absurd failed (by simp [Except.mapError])
  | @unfinished failure empty explained =>
    obtain rfl : failure.error = e := Except.error.inj failed
    obtain ⟨report, offender, same⟩ := report_of_explained explained
    rw [Option.or_none] at offender
    rw [empty] at cut
    rw [same, (ContextualLexer.tokens_of_lexemes standard.suited cut).1, ← fed]
    exact .inr (atEnd_of_placed placed offender)
  | @refused x failure final explained =>
    obtain rfl : failure.error = e := Except.error.inj failed
    obtain ⟨report, offender, same⟩ := report_of_explained explained
    obtain ⟨a, b, stands⟩ := placed.stands (List.mem_of_getLast? final)
    rw [same]
    exact .inl ⟨a, .token offender stands⟩
  | @unread failure ends =>
    obtain rfl : failure.error = e := Except.error.inj failed
    rw [cut.text]
    exact .inl ⟨_, ends.locatedAt⟩

/-- Positions are exact. Whatever states of the table the lexer is asked from, and in the root lexer,
every token stands in the text where it says, with only layout around it; the root lexer goes on to the
end of the text or to an error, and an error carries the place where it arose. An error of a parse
carries a place in the same way, or, at the end of the text, the position of the last token. -/
theorem positions_exact (loaded : parser = .ok p) (lexers : p.lexing = .contextual cl) (s : String) :
    (∀ places : List ParserPlace, (∀ place ∈ places, (table.row? place.state).isSome = true) →
      ∃ m, Placed s.toList 0 (cl.tokensAt places { text := Text.ofString s }).1 m ∧
        ∀ e, (cl.tokensAt places { text := Text.ofString s }).2.1 = some e →
          e.LocatedAt s.toList m) ∧
    (∃ m, Placed s.toList 0 (cl.root.tokens (Text.ofString s)).1 m ∧
      ((cl.root.tokens (Text.ofString s)).2.1 = none → m = s.toList.length) ∧
      ∀ e, (cl.root.tokens (Text.ofString s)).2.1 = some e → e.LocatedAt s.toList m) ∧
    ∀ e, p.parse s = .error e → (∃ n, e.LocatedAt s.toList n) ∨
      e.AtEnd (cl.root.tokens (Text.ofString s)).1.getLast? := by
  have suited := (standard_of_loaded loaded lexers).suited
  refine ⟨?_, ?_, fun e failed => error_located loaded lexers failed⟩
  · intro places rows
    have plain : (LexState.mk (Text.ofString s) {} none).text.bytes = false := rfl
    obtain ⟨ls, rest, cut, _, placed, ends⟩ := (ContextualLexer.lexed_tokensAt suited rows plain).placed
    refine ⟨_, placed, fun e failed => ?_⟩
    obtain none | ends := ends
    · exact absurd (failed.symm.trans none) (by simp)
    · rw [failed] at ends
      rw [cut.text]
      exact ends.locatedAt
  · obtain ⟨ls, rest, cut, _, placed, ends⟩ := (ContextualLexer.lexed_tokens suited s).placed
    refine ⟨_, placed, fun finished => ?_, fun e failed => ?_⟩
    · rw [finished] at ends
      cases ends with
      | finished empty => rw [cut.text, empty, List.append_nil]
    · rw [failed] at ends
      rw [cut.text]
      exact ends.locatedAt

theorem positions_exact_open_row : ∃ p cl e, parser = .ok p ∧ p.lexing = .contextual cl ∧
    (∀ place ∈ [⟨1, 27⟩, (⟨2, 25⟩ : ParserPlace)], (table.row? place.state).isSome = true) ∧
    (∃ m, Placed "a[i, // rows\n\n j".toList 0
      (cl.tokensAt [⟨1, 27⟩, ⟨2, 25⟩] { text := Text.ofString "a[i, // rows\n\n j" }).1 m) ∧
    (∃ m, Placed "a[i, // rows\n\n j".toList 0
      (cl.root.tokens (Text.ofString "a[i, // rows\n\n j")).1 m) ∧
    p.parse "a[i, // rows\n\n j" = .error e ∧ ((∃ n, e.LocatedAt "a[i, // rows\n\n j".toList n) ∨
      e.AtEnd (cl.root.tokens (Text.ofString "a[i, // rows\n\n j")).1.getLast?) := by
  obtain ⟨p, cl, loaded, lexers, same⟩ := exists_loaded
  have refused : (tree "a[i, // rows\n\n j").toOption = none := by decide +kernel
  have rows : ∀ place ∈ [⟨1, 27⟩, (⟨2, 25⟩ : ParserPlace)],
      (table.row? place.state).isSome = true := by decide
  obtain ⟨asked, ⟨m, placed, _⟩, located⟩ := positions_exact loaded lexers "a[i, // rows\n\n j"
  obtain ⟨m', placed', _⟩ := asked _ rows
  cases parsed : p.parse "a[i, // rows\n\n j" with
  | ok v => exact absurd refused (by simp [same, parsed, Except.toOption])
  | error e =>
    exact ⟨p, cl, e, loaded, lexers, rows, ⟨m', placed'⟩, ⟨m, placed⟩, parsed, located e parsed⟩

end Expression

end AxisLang
