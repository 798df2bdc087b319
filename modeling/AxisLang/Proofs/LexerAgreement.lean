import AxisLang.Proofs.Acceptance

/-! The state of the machine does not change what the tokens of a text are.
A contextual lexer tries only the terminals that the state of the machine has a use for. The lexeme at
the front of a text is of one kind, so such a lexer finds the token that the root lexer finds, or none.
Asked from any states in turn, it yields the first tokens of the root lexer; a run of the machine that
accepts a text takes all of them. -/
namespace AxisLang

section Lexemes

variable {ls ls' : List (TokenKind × List Char)} {s mid rest rest' : List Char} {k : TokenKind}
  {n : Nat}

theorem CutTo.append (h : CutTo s ls mid) (h' : CutTo mid ls' rest) : CutTo s (ls ++ ls') rest := by
  induction h with
  | nil => exact h'
  | cons longest _ ih => exact .cons longest (ih h')

theorem CutTo.prolonged (h : CutTo s ls rest) (h' : CutTo s ls' rest') (stuck : front? rest' = none) :
    ∃ more, ls' = ls ++ more ∧ CutTo rest more rest' := by
  induction h generalizing ls' with
  | nil => exact ⟨ls', rfl, h'⟩
  | @cons k u s ls rest longest _ ih =>
    have front := (longest_iff.mp longest).2
    generalize whole : u ++ s = text at h' front
    cases h' with
    | nil => rw [stuck] at front; exact absurd front (by simp)
    | @cons k' u' s' ls' _ longest' later =>
      obtain ⟨rfl, same⟩ := Prod.mk.inj (Option.some.inj ((longest_iff.mp longest').2.symm.trans front))
      obtain ⟨rfl, rfl⟩ := List.append_inj whole same.symm
      obtain ⟨more, rfl, cut⟩ := ih later
      exact ⟨more, rfl, cut⟩

theorem CutTo.of_nil (h : CutTo [] ls rest) : ls = [] ∧ rest = [] := by
  have text := h.text
  rw [eq_comm, List.append_eq_nil_iff] at text
  refine ⟨?_, text.2⟩
  generalize empty : ([] : List Char) = s at h
  cases h with
  | nil => rfl
  | cons longest _ =>
    obtain ⟨c, u', rfl, _⟩ := longest.spells.ofChar
    exact absurd empty (by simp)

theorem tokensOf_layout {c : Cursor} (layout : ∀ l ∈ ls, l.1.isLayout = true) :
    tokensOf c ls = [] := by
  induction ls generalizing c with
  | nil => rfl
  | cons l ls ih =>
    rw [tokensOf, if_pos (layout l (by simp))]
    exact ih fun l mem => layout l (by simp [mem])

theorem Cursor.pastAll_append (c : Cursor) (ls ls' : List (TokenKind × List Char)) :
    c.pastAll (ls ++ ls') = (c.pastAll ls).pastAll ls' := by
  induction ls generalizing c with
  | nil => rfl
  | cons l ls ih => exact ih _

end Lexemes

namespace LexState

def pastAll (st : LexState) (ls : List (TokenKind × List Char)) : LexState :=
  { st with cursor := st.cursor.pastAll ls }

variable {st : LexState} {ls : List (TokenKind × List Char)} {rest : List Char}

theorem exists_layout (st : LexState) : ∃ ls, (∀ l ∈ ls, l.1.isLayout = true) ∧
    CutTo st.rest ls (st.pastAll ls).rest ∧
    ∀ k n, front? (st.pastAll ls).rest = some (k, n) → k.isLayout = false := by
  induction size : st.remaining using Nat.strong_induction_on generalizing st with
  | _ m ih =>
    by_cases h : ∃ k n, front? st.rest = some (k, n) ∧ k.isLayout = true
    · obtain ⟨k, n, front, layout⟩ := h
      obtain ⟨ls, layouts, cut, after⟩ := ih _ (size ▸ Lexer.remaining_past_lt front) _ rfl
      rw [RunConf.rest_past_take front] at cut
      refine ⟨(k, st.rest.take n) :: ls, ?_, .of_front front cut, after⟩
      exact List.forall_mem_cons.mpr ⟨layout, layouts⟩
    · refine ⟨[], by simp, .nil, fun k n front => ?_⟩
      by_contra layout
      exact h ⟨k, n, front, by simpa using layout⟩

theorem eq_pastAll {β : Type} {f : LexState → β} (plain : st.text.bytes = false)
    (skips : ∀ {st : LexState} {k n}, st.text.bytes = false → front? st.rest = some (k, n) →
      k.isLayout = true → f st = f (st.past k (st.rest.take n)))
    (layout : ∀ l ∈ ls, l.1.isLayout = true) (cut : CutTo st.rest ls rest) :
    f st = f (st.pastAll ls) := by
  induction ls generalizing st with
  | nil => rfl
  | cons l ls ih =>
    generalize text : st.rest = cs at cut
    cases cut with
    | @cons k u s _ _ longest later =>
      have front := (longest_iff.mp longest).2
      rw [← text] at front
      have here : st.rest.take u.length = u := by rw [text, List.take_left]
      have next : (st.past k u).rest = s := by rw [rest_past, text, List.drop_left]
      rw [skips plain front (layout (k, u) (by simp)), here]
      exact ih plain (fun l mem => layout l (by simp [mem])) (next ▸ later)

end LexState

/-- How reading for the given kinds ends where a text is left: at its end, at a lexeme of another kind,
or at characters that no lexeme begins with. -/
inductive Ends (ks : List TokenKind) (c : Cursor) (rest : List Char) : Option Error → Prop
  | finished (empty : rest = []) : Ends ks c rest none
  | unwanted {k : TokenKind} {n : Nat} {report : TokenReport} (front : front? rest = some (k, n))
      (read : k.isLayout = false) (others : k ∉ ks)
      (offender : report.offender = .token (tokenOf c k (rest.take n))) :
      Ends ks c rest (some (.unexpectedToken report))
  | stray {report : CharReport} (more : rest ≠ []) (front : front? rest = none)
      (pos : report.pos = c.pos) (line : report.line = c.line) (column : report.column = c.column) :
      Ends ks c rest (some (.unexpectedChars report))

theorem Ends.weaken {ks : List TokenKind} {c : Cursor} {rest : List Char} {e : Option Error}
    (h : Ends ks c rest e) : Ends [] c rest e := by
  cases h with
  | finished empty => exact .finished empty
  | unwanted front read _ offender => exact .unwanted front read (by simp) offender
  | stray more front pos line column => exact .stray more front pos line column

theorem Ends.stuck {c : Cursor} {rest : List Char} {e : Option Error}
    (h : Ends TokenKind.all c rest e) : front? rest = none := by
  cases h with
  | finished empty => rw [empty]; rfl
  | unwanted _ _ others => exact absurd (TokenKind.mem_all _) others
  | stray _ front => exact front

inductive Meets (ks : List TokenKind) (st : LexState) : Scan × LexState → Prop
  | token {k : TokenKind} {n : Nat} (front : front? st.rest = some (k, n))
      (read : k.isLayout = false) :
      Meets ks st (.token (tokenOf st.cursor k (st.rest.take n)),
        { st.past k (st.rest.take n) with last := some (tokenOf st.cursor k (st.rest.take n)) })
  | finished (ends : Ends ks st.cursor st.rest none) : Meets ks st (.finished, st)
  | failed {e : Error} {after : LexState} (ends : Ends ks st.cursor st.rest (some e)) :
      Meets ks st (.failed e, after)

/-- A lexer for the given kinds passes over the layout before a state, and meets what is there. -/
def Asks (ks : List TokenKind) (st : LexState) (result : Scan × LexState) : Prop :=
  ∃ ls, (∀ l ∈ ls, l.1.isLayout = true) ∧ CutTo st.rest ls (st.pastAll ls).rest ∧
    Meets ks (st.pastAll ls) result

namespace ContextualLexer

variable {cl : ContextualLexer} {t : Table} {st : LexState}

theorem root_asks (suited : cl.isSuited t = true) (place : Option ParserPlace)
    (plain : st.text.bytes = false) : Asks TokenKind.all st (cl.root.next place st) := by
  have reads := root_reads suited
  obtain ⟨ls, layout, cut, solid⟩ := st.exists_layout
  refine ⟨ls, layout, cut, ?_⟩
  have skip : cl.root.next place st = cl.root.next place (st.pastAll ls) :=
    LexState.eq_pastAll plain (fun plain front => reads.next_layout plain front (TokenKind.mem_all _))
      layout cut
  have plain : (st.pastAll ls).text.bytes = false := plain
  rw [skip]
  by_cases empty : (st.pastAll ls).rest = []
  · rw [Lexer.next_finished empty]
    exact .finished (.finished empty)
  · cases front : front? (st.pastAll ls).rest with
    | none =>
      rw [reads.next_unmatched_eq place plain empty (by simp [front])]
      exact .failed (.stray empty front rfl rfl rfl)
    | some l =>
      obtain ⟨k, n⟩ := l
      have read := solid k n front
      rw [reads.next_token plain front k.mem_all read]
      exact .token front read

theorem next_asks (suited : cl.isSuited t = true) {place : ParserPlace}
    (row : (t.row? place.state).isSome = true) (plain : st.text.bytes = false) :
    Asks (wanted t place.state) st (cl.next place st) := by
  obtain ⟨ls, layout, cut, solid⟩ := st.exists_layout
  refine ⟨ls, layout, cut, ?_⟩
  have skip : cl.next place st = cl.next place (st.pastAll ls) :=
    LexState.eq_pastAll plain (fun plain front => next_layout suited row plain front) layout cut
  have plain : (st.pastAll ls).text.bytes = false := plain
  rw [skip]
  by_cases empty : (st.pastAll ls).rest = []
  · rw [next_finished suited row empty]
    exact .finished (.finished empty)
  · cases front : front? (st.pastAll ls).rest with
    | none =>
      obtain ⟨lx, found, reads⟩ := state_reads suited row
      have here := reads.next_unmatched_eq (some place) plain empty (by simp [front])
      have root := (root_reads suited).next_unmatched_eq (some place) plain empty (by simp [front])
      rw [next, found]
      simp only [here, root]
      exact .failed (.stray empty front rfl rfl rfl)
    | some l =>
      obtain ⟨k, n⟩ := l
      have read := solid k n front
      cases acts : t.action? place.state k.terminal with
      | some a =>
        rw [next_token suited row plain front read (by simp [acts])]
        exact .token front read
      | none =>
        obtain ⟨r, after, offender, refused⟩ := next_refused suited row plain front read acts
        rw [refused]
        exact .failed (.unwanted front read (by simp [mem_wanted, read, acts]) offender)

/-- The tokens that the lexer yields when it is asked from the given places in turn, how it ended, and
where. -/
def tokensAt (cl : ContextualLexer) :
    List ParserPlace → LexState → List Token × Option Error × LexState
  | [], st => ([], none, st)
  | place :: places, st =>
    match cl.next place st with
    | (.token x, st) =>
      let (xs, e, st) := cl.tokensAt places st
      (x :: xs, e, st)
    | (.finished, st) => ([], none, st)
    | (.failed e, st) => ([], some e, st)

end ContextualLexer

def Lexed (ending : Cursor → List Char → Option Error → Prop) (st : LexState) (xs : List Token)
    (e : Option Error) : Prop :=
  ∃ ls rest, CutTo st.rest ls rest ∧ xs = tokensOf st.cursor ls ∧ ending (st.cursor.pastAll ls) rest e

namespace Lexed

variable {ending : Cursor → List Char → Option Error → Prop} {st : LexState}
  {ls : List (TokenKind × List Char)} {k : TokenKind} {n : Nat} {xs : List Token} {e : Option Error}

theorem imp {ending' : Cursor → List Char → Option Error → Prop} (h : Lexed ending st xs e)
    (h' : ∀ c rest, ending c rest e → ending' c rest e) : Lexed ending' st xs e := by
  obtain ⟨ls, rest, cut, tokens, ends⟩ := h
  exact ⟨ls, rest, cut, tokens, h' _ _ ends⟩

theorem of_layout (layout : ∀ l ∈ ls, l.1.isLayout = true)
    (cut : CutTo st.rest ls (st.pastAll ls).rest)
    (ends : ending (st.pastAll ls).cursor (st.pastAll ls).rest e) : Lexed ending st [] e :=
  ⟨ls, _, cut, (tokensOf_layout layout).symm, ends⟩

theorem of_token (layout : ∀ l ∈ ls, l.1.isLayout = true)
    (cut : CutTo st.rest ls (st.pastAll ls).rest)
    (front : front? (st.pastAll ls).rest = some (k, n)) (read : k.isLayout = false) {x : Option Token}
    (later : Lexed ending { (st.pastAll ls).past k ((st.pastAll ls).rest.take n) with last := x } xs e) :
    Lexed ending st (tokenOf (st.pastAll ls).cursor k ((st.pastAll ls).rest.take n) :: xs) e := by
  obtain ⟨ls', rest, cut', rfl, ends⟩ := later
  have next : CutTo (st.pastAll ls).rest ((k, (st.pastAll ls).rest.take n) :: ls') rest := by
    refine .of_front front ?_
    rw [← RunConf.rest_past_take front]
    exact cut'
  refine ⟨ls ++ (k, (st.pastAll ls).rest.take n) :: ls', rest, cut.append next, ?_, ?_⟩
  · rw [tokensOf_append, tokensOf_layout layout, tokensOf, if_neg (by simp [read])]
    rfl
  · rw [Cursor.pastAll_append]
    exact ends

end Lexed

namespace ContextualLexer

variable {cl : ContextualLexer} {t : Table} {st : LexState}

theorem lexed_tokensAt (suited : cl.isSuited t = true) {places : List ParserPlace}
    (rows : ∀ place ∈ places, (t.row? place.state).isSome = true) (plain : st.text.bytes = false) :
    Lexed (fun c rest e => e = none ∨ Ends [] c rest e) st (cl.tokensAt places st).1
      (cl.tokensAt places st).2.1 := by
  induction places generalizing st with
  | nil => exact ⟨[], _, .nil, rfl, .inl rfl⟩
  | cons place places ih =>
    obtain ⟨ls, layout, cut, meets⟩ := next_asks suited (rows place (by simp)) plain
    rw [tokensAt]
    generalize cl.next place st = result at meets
    cases meets with
    | token front read =>
      exact .of_token layout cut front read (ih (fun place mem => rows place (by simp [mem])) plain)
    | finished ends => exact .of_layout layout cut (.inl rfl)
    | failed ends => exact .of_layout layout cut (.inr ends.weaken)

theorem lexed_tokensFrom (suited : cl.isSuited t = true) (plain : st.text.bytes = false) {fuel : Nat}
    (enough : st.remaining < fuel) :
    Lexed (Ends TokenKind.all) st (cl.root.tokensFrom fuel st).1 (cl.root.tokensFrom fuel st).2.1 := by
  induction fuel generalizing st with
  | zero => omega
  | succ fuel ih =>
    have less {x : Token} {st' : LexState} (found : cl.root.next none st = (.token x, st')) :
        st'.remaining < st.remaining := (root_reads suited).next_remaining_lt plain found
    obtain ⟨ls, layout, cut, meets⟩ := root_asks suited none plain
    rw [Lexer.tokensFrom]
    generalize cl.root.next none st = result at meets less
    cases meets with
    | token front read =>
      have less := less rfl
      exact .of_token layout cut front read (ih plain (by omega))
    | finished ends => exact .of_layout layout cut ends
    | failed ends => exact .of_layout layout cut ends

theorem lexed_tokens (suited : cl.isSuited t = true) (s : String) :
    Lexed (Ends TokenKind.all) { text := Text.ofString s } (cl.root.tokens (Text.ofString s)).1
      (cl.root.tokens (Text.ofString s)).2.1 :=
  lexed_tokensFrom suited rfl (Nat.lt_succ_of_le (Nat.sub_le _ _))

theorem tokens_of_lexemes (suited : cl.isSuited t = true) {s : String}
    {ls : List (TokenKind × List Char)} (cut : CutTo s.toList ls []) :
    (cl.root.tokens (Text.ofString s)).1 = tokensOf {} ls ∧
      (cl.root.tokens (Text.ofString s)).2.1 = none := by
  obtain ⟨all, rest, whole, tokens, ends⟩ := lexed_tokens suited s
  obtain ⟨more, rfl, later⟩ := cut.prolonged whole ends.stuck
  obtain ⟨rfl, rfl⟩ := later.of_nil
  rw [tokens, List.append_nil]
  refine ⟨rfl, ?_⟩
  generalize (cl.root.tokens (Text.ofString s)).2.1 = e at ends
  cases ends with
  | finished => rfl
  | unwanted _ _ others => exact absurd (TokenKind.mem_all _) others
  | stray more => exact absurd rfl more

end ContextualLexer

namespace RunConf

variable {α : Type}

/-- The tokens that a run takes from its stream. -/
def taken (c : RunConf α) (stream : TokenStream) (p : Progress α) : List Token :=
  match stream.next p.stack.place with
  | (.failed _, _) => []
  | (.finished, _) => []
  | (.token x, rest) =>
    match c.advance p (c.filtered p x) with
    | .error _ => [x]
    | .ok p => if _less : rest.size < stream.size then x :: c.taken rest p else [x]
termination_by stream.size

variable {c : RunConf α} {f : Table.Frame} {cl : ContextualLexer} {st : LexState} {p : Progress α}
  {w : List Token}

theorem taken_found {x : Token} {after : LexState}
    (h : cl.next p.stack.place st = (.token x, after)) (less : after.remaining < st.remaining) :
    c.taken (.text cl st) p =
      match c.advance p (c.filtered p x) with
      | .error _ => [x]
      | .ok p => x :: c.taken (.text cl after) p := by
  rw [taken]
  simp only [TokenStream.next, h]
  cases c.advance p (c.filtered p x) with
  | error e => rfl
  | ok p => exact dif_pos less

/-- How a run over a text closes that took the tokens `xs`, where `last` is the token before them: at
the end of the text it accepts, or the end token fails; before the end the last token fails, or the
lexer does. -/
inductive Closes (f : Table.Frame) (sem : Semantics α) (last : Option Token) (xs : List Token)
    (c : Cursor) (rest : List Char) : Except RunFailure α → Prop
  | accepted {v : α} (empty : rest = []) : Closes f sem last xs c rest (.ok v)
  | unfinished {failure : RunFailure} (empty : rest = [])
      (explained : Machine.Explained f sem (endToken (xs.getLast?.or last)) failure.error) :
      Closes f sem last xs c rest (.error failure)
  | refused {x : Token} {failure : RunFailure} (final : xs.getLast? = some x)
      (explained : Machine.Explained f sem x failure.error) :
      Closes f sem last xs c rest (.error failure)
  | unread {failure : RunFailure} (ends : Ends [] c rest (some failure.error)) :
      Closes f sem last xs c rest (.error failure)

theorem Closes.cons {sem : Semantics α} {last : Option Token} {xs : List Token} {x : Token}
    {cur : Cursor} {rest : List Char} {result : Except RunFailure α}
    (h : Closes f sem (some x) xs cur rest result) : Closes f sem last (x :: xs) cur rest result := by
  have same : (x :: xs).getLast?.or last = xs.getLast?.or (some x) := by
    rw [List.getLast?_cons]
    cases xs.getLast? <;> rfl
  cases h with
  | accepted empty => exact .accepted empty
  | unfinished empty explained => exact .unfinished empty (same ▸ explained)
  | refused final explained =>
    refine .refused ?_ explained
    rw [List.getLast?_cons, final, Option.getD_some]
  | unread ends => exact .unread ends

theorem closes_conclude (sound : c.table.isSound f = true) (final : c.final = f.final)
    (unfiltered : c.layout = none) (end_symbol : Token.endKind ∉ f.symbols)
    (reached : Machine.Reached c.table f c.semantics p.stack w) {cur : Cursor} {rest : List Char}
    (empty : rest = []) : Closes f c.semantics p.last [] cur rest (c.conclude p) := by
  have outcome := reached.feed sound true (endToken p.last)
    (by rw [endToken_kind]; exact end_symbol) fun _ => endToken_kind _
  rw [conclude_eq unfiltered, final]
  cases fed : Machine.feed c.table c.semantics f.final true (endToken p.last) p.stack with
  | shifted stack => rw [fed] at outcome; exact absurd outcome.1 (by simp)
  | accepted v stack => exact .accepted empty
  | failed e stack => rw [fed] at outcome; exact .unfinished empty outcome

theorem lexed_taken (sound : c.table.isSound f = true) (final : c.final = f.final)
    (unfiltered : c.layout = none) (end_symbol : Token.endKind ∉ f.symbols)
    (suited : cl.isSuited c.table = true) (kinds : ∀ k : TokenKind, k.terminal ∉ f.symbols)
    (plain : st.text.bytes = false) (reached : Machine.Reached c.table f c.semantics p.stack w) :
    Lexed (fun cur rest _ => Closes f c.semantics p.last (c.taken (.text cl st) p) cur rest
      (c.run (.text cl st) p)) st (c.taken (.text cl st) p) none := by
  induction size : st.remaining using Nat.strong_induction_on generalizing st p w with
  | _ m ih =>
    obtain ⟨q, top⟩ := reached.top
    have place : p.stack.place.state = q := by
      rw [Stack.place, List.headD_eq_head?_getD, top, Option.getD_some]
    have row := reached.row sound (place ▸ top)
    obtain ⟨ls, layout, cut, meets⟩ := ContextualLexer.next_asks suited row plain
    generalize found : cl.next p.stack.place st = result at meets
    cases meets with
    | finished ends =>
      cases ends with
      | finished empty =>
        rw [taken, run]
        simp only [TokenStream.next, found]
        exact .of_layout layout cut
          (closes_conclude sound final unfiltered end_symbol reached empty)
    | failed ends =>
      rw [taken, run_failed found]
      simp only [TokenStream.next, found]
      exact .of_layout layout cut (.unread ends.weaken)
    | @token k n front read =>
      have less := ContextualLexer.next_remaining_lt suited row plain found
      have outcome := reached.feed sound false
        (tokenOf (st.pastAll ls).cursor k ((st.pastAll ls).rest.take n)) (kinds k) (by simp)
      rw [taken_found found less, run_found found less, advance_single unfiltered]
      rw [← final] at outcome
      cases fed : Machine.feed c.table c.semantics c.final false
          (tokenOf (st.pastAll ls).cursor k ((st.pastAll ls).rest.take n)) p.stack with
      | shifted stack =>
        rw [fed] at outcome
        exact .of_token layout cut front read
          (Lexed.imp (@ih _ (size ▸ less) ⟨st.text, _, _⟩ ⟨stack, _, _⟩ _ plain outcome.2 rfl)
            fun _ _ => .cons)
      | accepted v stack => rw [fed] at outcome; exact absurd outcome.1 (by simp)
      | failed e stack =>
        rw [fed] at outcome
        refine .of_token (x := none) layout cut front read ⟨[], _, .nil, rfl, ?_⟩
        exact .refused rfl outcome

end RunConf

/-- The tokens that the machine is fed when a stream is parsed from a start rule. -/
def Parser.fed (p : Parser) (start : String) (stream : TokenStream) : List Token :=
  match p.table.starts.lookup start, p.table.ends.lookup start with
  | some first, some final =>
    RunConf.taken ⟨p.table, p.semantics, final, p.layout⟩ stream { stack := ⟨[first], []⟩ }
  | _, _ => []

namespace Expression

variable {p : Parser} {cl : ContextualLexer}

theorem Standard.fed_eq (h : Standard p cl) (s : String) :
    p.fed "start" (p.streamOf (Text.ofString s)) =
      (runUnder p.semantics).taken (.text cl ⟨Text.ofString s, {}, none⟩)
        ⟨⟨[27], []⟩, {}, none⟩ := by
  have first : table.starts.lookup "start" = some 27 := by decide
  have final : table.ends.lookup "start" = some 0 := by decide
  simp only [Parser.fed, Parser.streamOf, h.lexing, h.tables, h.layout, first, final,
    runUnder]

theorem standard_of_loaded (loaded : parser = .ok p) (lexers : p.lexing = .contextual cl) :
    Standard p cl := by
  obtain ⟨p', cl', loaded', standard, _⟩ := parser_loads
  obtain rfl : p = p' := Except.ok.inj (loaded.symm.trans loaded')
  obtain rfl : cl = cl' := Lexing.contextual.inj (lexers.symm.trans standard.lexing)
  exact standard

theorem Standard.run_of_parse (h : Standard p cl) {s : String} {v : Value} (parsed : p.parse s = .ok v) :
    (runUnder p.semantics).run (.text cl ⟨Text.ofString s, {}, none⟩) ⟨⟨[27], []⟩, {}, none⟩ =
      .ok v := by
  rw [h.parse_eq] at parsed
  generalize (runUnder p.semantics).run (.text cl ⟨Text.ofString s, {}, none⟩)
    ⟨⟨[27], []⟩, {}, none⟩ = result at parsed ⊢
  cases result with
  | ok v' => exact congrArg Except.ok (Except.ok.inj parsed)
  | error f => exact absurd parsed (by simp [Except.mapError])

theorem Standard.lexed_fed (h : Standard p cl) (s : String) :
    Lexed (fun cur rest _ => RunConf.Closes frame p.semantics none
      (p.fed "start" (p.streamOf (Text.ofString s))) cur rest
      ((runUnder p.semantics).run (.text cl ⟨Text.ofString s, {}, none⟩) ⟨⟨[27], []⟩, {}, none⟩))
      { text := Text.ofString s } (p.fed "start" (p.streamOf (Text.ofString s))) none := by
  have plain : (LexState.mk (Text.ofString s) {} none).text.bytes = false := rfl
  rw [h.fed_eq]
  exact RunConf.lexed_taken (c := runUnder p.semantics) (p := ⟨⟨[27], []⟩, {}, none⟩) table_isSound rfl
    rfl endKind_notMem_symbols h.suited terminal_notMem_symbols plain .start

def rootOf? (p : Parser) : Option Lexer :=
  match p.lexing with
  | .contextual cl => some cl.root
  | _ => none

theorem rootOf?_loaded : parser.toOption.bind rootOf? =
    parser.toOption.bind fun p => (p.rootLexer false).toOption := by
  with_unfolding_all rfl

theorem rootLexer_of_loaded (loaded : parser = .ok p) (lexers : p.lexing = .contextual cl) :
    p.rootLexer false = .ok cl.root := by
  have same := rootOf?_loaded
  simp only [loaded, Except.toOption, Option.bind_some, rootOf?, lexers] at same
  cases built : p.rootLexer false with
  | error e => rw [built] at same; exact absurd same (by simp)
  | ok lx => rw [built] at same; rw [Option.some.inj same]

/-- Whatever states of the table the lexer is asked from, its tokens are the first tokens of the root
lexer, which is the lexer over all terminals. A text that is accepted is fed to the machine as all the
tokens of the root lexer, which reaches the end of the text. -/
theorem contextual_tokens_agree (loaded : parser = .ok p) (lexers : p.lexing = .contextual cl)
    (s : String) :
    p.rootLexer false = .ok cl.root ∧
    (∀ places : List ParserPlace, (∀ place ∈ places, (table.row? place.state).isSome = true) →
      (cl.tokensAt places { text := Text.ofString s }).1 <+: (cl.root.tokens (Text.ofString s)).1) ∧
    ∀ v, p.parse s = .ok v →
      p.fed "start" (p.streamOf (Text.ofString s)) = (cl.root.tokens (Text.ofString s)).1 ∧
        (cl.root.tokens (Text.ofString s)).2.1 = none := by
  have standard := standard_of_loaded loaded lexers
  refine ⟨rootLexer_of_loaded loaded lexers, ?_, ?_⟩
  · intro places rows
    obtain ⟨all, rest, whole, tokens, ends⟩ := ContextualLexer.lexed_tokens standard.suited s
    have plain : (LexState.mk (Text.ofString s) {} none).text.bytes = false := rfl
    obtain ⟨ls, mid, cut, found, _⟩ := ContextualLexer.lexed_tokensAt standard.suited rows plain
    obtain ⟨more, rfl, _⟩ := cut.prolonged whole ends.stuck
    rw [tokens, found, tokensOf_append]
    exact List.prefix_append _ _
  · intro v parsed
    obtain ⟨ls, mid, cut, found, closes⟩ := standard.lexed_fed s
    rw [standard.run_of_parse parsed] at closes
    obtain ⟨rfl⟩ := closes
    rw [found]
    obtain ⟨same, finished⟩ := ContextualLexer.tokens_of_lexemes standard.suited cut
    exact ⟨same.symm, finished⟩

theorem exists_loaded :
    ∃ p cl, parser = .ok p ∧ p.lexing = .contextual cl ∧ ∀ s, tree s = p.parse s := by
  obtain ⟨p, cl, loaded, standard, _⟩ := parser_loads
  refine ⟨p, cl, loaded, standard.lexing, fun s => ?_⟩
  rw [tree, loaded]
  rfl

def sampleText : String := "a[i*j, ...] // all\n->"

theorem sampleText_accepted : ∃ v, tree sampleText = .ok v := by
  have some : (tree sampleText).toOption.isSome = true := by decide +kernel
  cases accepted : tree sampleText with
  | error e => exact absurd some (by simp [accepted, Except.toOption])
  | ok v => exact ⟨v, rfl⟩

theorem contextual_tokens_agree_sample : ∃ p cl v, parser = .ok p ∧ p.lexing = .contextual cl ∧
    p.parse sampleText = .ok v ∧
    (∀ place ∈ [⟨1, 27⟩, ⟨2, 25⟩, (⟨3, 20⟩ : ParserPlace)], (table.row? place.state).isSome = true) ∧
    (cl.tokensAt [⟨1, 27⟩, ⟨2, 25⟩, ⟨3, 20⟩] { text := Text.ofString sampleText }).1 <+:
      (cl.root.tokens (Text.ofString sampleText)).1 ∧
    p.fed "start" (p.streamOf (Text.ofString sampleText)) =
      (cl.root.tokens (Text.ofString sampleText)).1 := by
  obtain ⟨p, cl, loaded, lexers, same⟩ := exists_loaded
  obtain ⟨v, accepted⟩ := sampleText_accepted
  have rows : ∀ place ∈ [⟨1, 27⟩, ⟨2, 25⟩, (⟨3, 20⟩ : ParserPlace)],
      (table.row? place.state).isSome = true := by decide
  obtain ⟨_, agree, whole⟩ := contextual_tokens_agree loaded lexers sampleText
  rw [same] at accepted
  exact ⟨p, cl, v, loaded, lexers, accepted, rows, agree _ rows, (whole v accepted).1⟩

end Expression

end AxisLang
