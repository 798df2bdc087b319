import AxisLang.Proofs.Lexing
import AxisLang.Proofs.TokenRun

/-! Runs of the machine over a text.
The lexer asks the machine for its state before each token, and a state that has no use for a lexeme
makes the lexer fail where a run over tokens would make the machine fail. A run over a text gives what
the run over the tokens of its lexemes gives; where the text cannot be cut, or that run fails, it fails
with a report. -/
namespace AxisLang

namespace RunConf

variable {α : Type} {c : RunConf α} {f : Table.Frame} {p : Progress α} {w : List Token}
  {cl : ContextualLexer} {st : LexState} {k : TokenKind} {n : Nat}

theorem run_failed {e : Error} {st' : LexState}
    (h : cl.next p.stack.place st = (.failed e, st')) :
    c.run (.text cl st) p = .error ⟨e, p.stack.states⟩ := by
  rw [run]
  simp only [TokenStream.next, h]

theorem run_finished (suited : cl.isSuited c.table = true)
    (row : (c.table.row? p.stack.place.state).isSome = true) (empty : st.rest = []) :
    c.run (.text cl st) p = c.conclude p := by
  rw [run]
  simp only [TokenStream.next, ContextualLexer.next_finished suited row empty]

theorem run_found {x : Token} {after : LexState}
    (h : cl.next p.stack.place st = (.token x, after)) (less : after.remaining < st.remaining) :
    c.run (.text cl st) p =
      match c.advance p (c.filtered p x) with
      | .error e => .error e
      | .ok p => c.run (.text cl after) p := by
  rw [run]
  simp only [TokenStream.next, h]
  cases c.advance p (c.filtered p x) with
  | error e => rfl
  | ok p => exact dif_pos less

theorem run_layout (suited : cl.isSuited c.table = true)
    (row : (c.table.row? p.stack.place.state).isSome = true) (plain : st.text.bytes = false)
    (front : front? st.rest = some (k, n)) (layout : k.isLayout = true) :
    c.run (.text cl st) p = c.run (.text cl (st.past k (st.rest.take n))) p := by
  have skip := ContextualLexer.next_layout suited row plain front layout
  cases found : cl.next p.stack.place (st.past k (st.rest.take n)) with
  | mk scan after =>
    rw [found] at skip
    cases scan with
    | finished =>
      rw [run, run]
      simp only [TokenStream.next, found, skip]
    | failed e => rw [run_failed skip, run_failed found]
    | token x =>
      have same : (st.past k (st.rest.take n)).text.bytes = false := plain
      have later := ContextualLexer.next_remaining_lt suited row same found
      rw [run_found skip (Nat.lt_trans later (Lexer.remaining_past_lt front)),
        run_found found later]

theorem run_token (suited : cl.isSuited c.table = true)
    (row : (c.table.row? p.stack.place.state).isSome = true) (plain : st.text.bytes = false)
    (unfiltered : c.layout = none) (front : front? st.rest = some (k, n))
    (layout : k.isLayout = false)
    (acts : (c.table.action? p.stack.place.state k.terminal).isSome = true) :
    let x := tokenOf st.cursor k (st.rest.take n)
    c.run (.text cl st) p =
      match Machine.feed c.table c.semantics c.final false x p.stack with
      | .shifted stack =>
        c.run (.text cl { st.past k (st.rest.take n) with last := some x })
          { p with stack, last := some x }
      | .accepted _ stack =>
        c.run (.text cl { st.past k (st.rest.take n) with last := some x })
          { p with stack, last := some x }
      | .failed e stack => .error ⟨e, stack.states⟩ := by
  intro x
  have found := ContextualLexer.next_token suited row plain front layout acts
  rw [run_found found (Lexer.remaining_past_lt front), advance_single unfiltered]
  cases Machine.feed c.table c.semantics c.final false x p.stack <;> rfl

theorem rest_past_take (front : front? st.rest = some (k, n)) :
    (st.past k (st.rest.take n)).rest = st.rest.drop n := by
  rw [LexState.rest_past, List.length_take, Nat.min_eq_left (front?_length front).2]

inductive Halts (f : Table.Frame) (c : RunConf α) (st : LexState) (p : Progress α) :
    Except RunFailure α → Prop
  | finished (empty : st.rest = []) : Halts f c st p (c.conclude p)
  | stray {report : CharReport} {states : List Nat} (more : st.rest ≠ [])
      (front : front? st.rest = none) (pos : report.pos = st.cursor.pos) :
      Halts f c st p (.error ⟨.unexpectedChars report, states⟩)
  | token {k : TokenKind} {n : Nat} {e : Error} {s : Stack α} {failure : RunFailure}
      (front : front? st.rest = some (k, n)) (layout : k.isLayout = false)
      (fed : Machine.feed c.table c.semantics c.final false (tokenOf st.cursor k (st.rest.take n))
        p.stack = .failed e s)
      (explained : Machine.Explained f c.semantics (tokenOf st.cursor k (st.rest.take n))
        failure.error) : Halts f c st p (.error failure)

/-- A run over the rest of a text: the machine takes the tokens of the lexemes up to the place where
the run halts. -/
def Traced (f : Table.Frame) (c : RunConf α) (cl : ContextualLexer) (st : LexState)
    (p : Progress α) (w : List Token) : Prop :=
  ∃ ls st' p', CutTo st.rest ls st'.rest ∧ st'.cursor = st.cursor.pastAll ls ∧
    c.feedAll (tokensOf st.cursor ls) p = .ok p' ∧
    Machine.Reached c.table f c.semantics p'.stack (w ++ tokensOf st.cursor ls) ∧
    Halts f c st' p' (c.run (.text cl st) p)

theorem Traced.of_halts (reached : Machine.Reached c.table f c.semantics p.stack w)
    (h : Halts f c st p (c.run (.text cl st) p)) : Traced f c cl st p w :=
  ⟨[], st, p, .nil, rfl, rfl, by rwa [tokensOf, List.append_nil], h⟩

theorem Traced.of_layout (suited : cl.isSuited c.table = true)
    (row : (c.table.row? p.stack.place.state).isSome = true) (plain : st.text.bytes = false)
    (front : front? st.rest = some (k, n)) (layout : k.isLayout = true)
    (h : Traced f c cl (st.past k (st.rest.take n)) p w) : Traced f c cl st p w := by
  obtain ⟨ls, st', p', cut, cursor, fed, reached, halts⟩ := h
  have skip : tokensOf st.cursor ((k, st.rest.take n) :: ls) =
      tokensOf (st.past k (st.rest.take n)).cursor ls := if_pos layout
  rw [rest_past_take front] at cut
  rw [← run_layout suited row plain front layout] at halts
  exact ⟨(k, st.rest.take n) :: ls, st', p', .of_front front cut, cursor, skip ▸ fed,
    skip ▸ reached, halts⟩

theorem Traced.of_refused (suited : cl.isSuited c.table = true)
    (row : (c.table.row? p.stack.place.state).isSome = true) (plain : st.text.bytes = false)
    (reached : Machine.Reached c.table f c.semantics p.stack w)
    (front : front? st.rest = some (k, n)) (layout : k.isLayout = false)
    (top : p.stack.states.head? = some p.stack.place.state)
    (act : c.table.action? p.stack.place.state k.terminal = none) : Traced f c cl st p w := by
  obtain ⟨r, after, offender, refused⟩ :=
    ContextualLexer.next_refused suited row plain front layout act
  obtain ⟨report, stopped⟩ := Machine.step_none top row
    (x := tokenOf st.cursor k (st.rest.take n)) act
  refine .of_halts reached ?_
  rw [run_failed refused]
  exact .token front layout (Machine.feed_done stopped) (.inl ⟨r, offender, rfl⟩)

theorem Traced.of_token (sound : c.table.isSound f = true) (final : c.final = f.final)
    (unfiltered : c.layout = none) (suited : cl.isSuited c.table = true)
    (row : (c.table.row? p.stack.place.state).isSome = true) (plain : st.text.bytes = false)
    (reached : Machine.Reached c.table f c.semantics p.stack w)
    (front : front? st.rest = some (k, n)) (layout : k.isLayout = false)
    (kind : k.terminal ∉ f.symbols)
    (acts : (c.table.action? p.stack.place.state k.terminal).isSome = true)
    (h : ∀ stack, let x := tokenOf st.cursor k (st.rest.take n)
      Machine.Reached c.table f c.semantics stack (w ++ [x]) →
      Traced f c cl { st.past k (st.rest.take n) with last := some x }
        { p with stack, last := some x } (w ++ [x])) : Traced f c cl st p w := by
  have outcome := reached.feed sound false (tokenOf st.cursor k (st.rest.take n)) kind (by simp)
  have run := run_token (p := p) suited row plain unfiltered front layout acts
  dsimp only at run
  rw [← final] at outcome
  cases result : Machine.feed c.table c.semantics c.final false
      (tokenOf st.cursor k (st.rest.take n)) p.stack with
  | shifted s =>
    rw [result] at outcome run
    obtain ⟨ls, st', p', cut, cursor, fed, later, halts⟩ := h s outcome.2
    have here : tokensOf st.cursor ((k, st.rest.take n) :: ls) =
        tokenOf st.cursor k (st.rest.take n) :: tokensOf (st.past k (st.rest.take n)).cursor ls :=
      if_neg (by simp [layout])
    refine ⟨(k, st.rest.take n) :: ls, st', p', .of_front front (rest_past_take front ▸ cut), cursor,
      ?_, ?_, run ▸ halts⟩
    · rw [here, feedAll, result]
      exact fed
    · rw [here, List.append_cons]
      exact later
  | accepted v s => rw [result] at outcome; exact absurd outcome.1 (by simp)
  | failed e s =>
    rw [result] at outcome run
    refine .of_halts reached ?_
    rw [run]
    exact .token front layout result outcome

theorem run_traced (sound : c.table.isSound f = true) (final : c.final = f.final)
    (unfiltered : c.layout = none) (suited : cl.isSuited c.table = true)
    (kinds : ∀ k : TokenKind, k.terminal ∉ f.symbols) (plain : st.text.bytes = false)
    (reached : Machine.Reached c.table f c.semantics p.stack w) : Traced f c cl st p w := by
  -- every lexeme, layout or not, leaves less of the text
  induction size : st.remaining using Nat.strong_induction_on generalizing st p w with
  | _ m ih =>
    obtain ⟨q, top⟩ := reached.top
    have place : p.stack.place.state = q := by
      rw [Stack.place, List.headD_eq_head?_getD, top, Option.getD_some]
    rw [← place] at top
    have row := reached.row sound top
    by_cases empty : st.rest = []
    · refine .of_halts reached ?_
      rw [run_finished suited row empty]
      exact .finished empty
    · cases front : front? st.rest with
      | none =>
        obtain ⟨r, pos, stray⟩ := ContextualLexer.next_stray suited row plain empty front
        refine .of_halts reached ?_
        rw [run_failed stray]
        exact .stray empty front pos
      | some l =>
        obtain ⟨k, n⟩ := l
        have less := size ▸ Lexer.remaining_past_lt front
        by_cases layout : k.isLayout = true
        · exact .of_layout suited row plain front layout (ih _ less plain reached rfl)
        · have layout : k.isLayout = false := by simpa using layout
          cases act : c.table.action? p.stack.place.state k.terminal with
          | none => exact .of_refused suited row plain reached front layout top act
          | some a =>
            exact .of_token sound final unfiltered suited row plain reached front layout (kinds k)
              (by simp [act]) fun stack after => ih _ less plain after rfl

def Blamed (f : Table.Frame) (sem : Semantics α) (e : Error) : Prop :=
  (∃ r, e = .unexpectedChars r) ∨ ∃ x, Machine.Explained f sem x e

/-- A run over the rest of a text gives what the run over the tokens of its lexemes gives; or it
fails for a known cause, and the run over the tokens, if the text can be cut, fails as well. -/
def Matches (f : Table.Frame) (c : RunConf α) (cl : ContextualLexer) (st : LexState)
    (p : Progress α) : Prop :=
  (∃ ls, Cut st.rest ls ∧
    c.run (.text cl st) p = c.run (.tokens (tokensOf st.cursor ls)) p) ∨
  ∃ e, c.run (.text cl st) p = .error e ∧ Blamed f c.semantics e.error ∧
    ∀ ls, Cut st.rest ls → ∃ e', c.run (.tokens (tokensOf st.cursor ls)) p = .error e'

theorem run_matches (sound : c.table.isSound f = true) (final : c.final = f.final)
    (unfiltered : c.layout = none) (suited : cl.isSuited c.table = true)
    (kinds : ∀ k : TokenKind, k.terminal ∉ f.symbols) (plain : st.text.bytes = false)
    (reached : Machine.Reached c.table f c.semantics p.stack w) : Matches f c cl st p := by
  obtain ⟨ls, st', p', cut, cursor, fed, _, halts⟩ :=
    run_traced sound final unfiltered suited kinds plain reached
  -- a cut of the whole text begins with the lexemes read so far
  have tokens (more : List (TokenKind × List Char)) :
      c.run (.tokens (tokensOf st.cursor (ls ++ more))) p =
        c.run (.tokens (tokensOf st'.cursor more)) p' := by
    rw [tokensOf_append, run_append unfiltered fed, cursor]
  rw [Matches]
  generalize c.run (.text cl st) p = result at halts ⊢
  cases halts with
  | finished empty =>
    have whole := tokens []
    rw [List.append_nil, tokensOf, run_nil] at whole
    exact .inl ⟨ls, cut.cut empty, whole.symm⟩
  | stray more front =>
    refine .inr ⟨_, rfl, .inl ⟨_, rfl⟩, fun ls' whole => ?_⟩
    obtain ⟨rest, rfl, later⟩ := cut.split whole
    exact absurd (later.front_isSome more) (by simp [front])
  | token front layout refused explained =>
    refine .inr ⟨_, rfl, .inr ⟨_, explained⟩, fun ls' whole => ?_⟩
    obtain ⟨rest, rfl, later⟩ := cut.split whole
    obtain ⟨rest, rfl, _⟩ := later.front_inv front
    rw [tokens, tokensOf, if_neg (by simp [layout]), run_cons unfiltered, refused]
    exact ⟨_, rfl⟩

end RunConf

end AxisLang
