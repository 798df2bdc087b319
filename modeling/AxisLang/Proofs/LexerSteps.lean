import AxisLang.Lexer.Basic
import AxisLang.Proofs.Results

/-! How a lexer is made and what one step of it does: the scanner finds a lexeme at the front of the
text that is left, the token of the lexeme is settled, and the request ends with it or goes on behind
it. -/
namespace AxisLang

namespace LexState

def rest (st : LexState) : List Char :=
  st.text.chars.drop st.cursor.pos

theorem length_rest (st : LexState) : st.rest.length = st.remaining := List.length_drop

theorem pos_le_advance (st : LexState) (test : Bool) (lexeme : Text) :
    st.cursor.pos ≤ (st.advance test lexeme).cursor.pos := by
  rw [advance, Cursor.feed_pos]
  omega

end LexState

namespace Lexer

variable {c : LexerConf} {lx : Lexer} {sc : Scanner} {st : LexState} {place : Option ParserPlace}
  {kind : String} {n : Nat}

structure Made (c : LexerConf) (lx : Lexer) : Prop where
  distinct : (c.terminals.map (·.name)).Nodup
  valid : c.validate = true → validate c = .ok ()
  terminals : Terminal.sorted c.terminals = .ok lx.terminals
  ignore : lx.ignore = c.ignore
  callbacks : lx.callbacks = c.callbacks
  bytes : lx.bytes = c.bytes
  scanner : lx.scanner =
    if c.patterns then Scanner.build (.ofBits c.flags) c.bytes lx.terminals
    else .error (.fault .attribute "")

theorem sorted_of_mapError {ts out : List Terminal}
    (h : (Terminal.sorted ts).mapError WidthFault.error = .ok out) : Terminal.sorted ts = .ok out := by
  cases sorted : Terminal.sorted ts with
  | error e => simp [sorted, Except.mapError] at h
  | ok out' => simpa [sorted, Except.mapError] using h

theorem made_of_build (distinct : (c.terminals.map (·.name)).Nodup) (h : build c = .ok lx) :
    Made c lx := by
  unfold build at h
  by_cases asked : c.validate = true
  · rw [if_pos asked] at h
    obtain ⟨_, valid, h⟩ := bind_eq_ok_iff.mp h
    obtain ⟨ts, sorted, h⟩ := bind_eq_ok_iff.mp h
    obtain rfl := Except.ok.inj h
    exact ⟨distinct, fun _ => valid, sorted_of_mapError sorted, rfl, rfl, rfl, rfl⟩
  · rw [if_neg asked] at h
    obtain ⟨ts, sorted, h⟩ := bind_eq_ok_iff.mp h
    obtain rfl := Except.ok.inj h
    exact ⟨distinct, fun yes => absurd yes asked, sorted_of_mapError sorted, rfl, rfl, rfl, rfl⟩

theorem made_of_define (h : define c = .ok lx) : Made c lx := by
  unfold define at h
  split at h
  · rename_i distinct
    exact made_of_build distinct h
  · simp at h

theorem Made.build (made : Made c lx) (h : lx.scanner = .ok sc) :
    Scanner.build (.ofBits c.flags) c.bytes lx.terminals = .ok sc := by
  have scanner := made.scanner
  rw [h] at scanner
  split at scanner
  · exact scanner.symm
  · simp at scanner

def behind (lx : Lexer) (st : LexState) (kind : String) (n : Nat) : LexState :=
  st.advance (lx.newlineKinds.contains kind) (st.text.extract st.cursor.pos n)

/-- The token of a lexeme as it is settled. The end is left open if the token is to be ignored. -/
def foundToken (lx : Lexer) (st : LexState) (kind : String) (n : Nat) : Token :=
  let start := tokenAt kind (st.text.extract st.cursor.pos n) st.cursor
  if lx.ignore.contains kind then start else endedAt start (lx.behind st kind n).cursor

theorem foundToken_kind (lx : Lexer) (st : LexState) (kind : String) (n : Nat) :
    (lx.foundToken st kind n).kind = kind := by
  unfold foundToken
  split <;> rfl

theorem foundToken_text (lx : Lexer) (st : LexState) (kind : String) (n : Nat) :
    (lx.foundToken st kind n).text.chars = st.rest.take n := by
  unfold foundToken
  split <;> rfl

theorem behind_text (lx : Lexer) (st : LexState) (kind : String) (n : Nat) :
    (lx.behind st kind n).text = st.text := rfl

theorem behind_rest (h : n ≤ st.rest.length) : (lx.behind st kind n).rest = st.rest.drop n := by
  have taken : (st.text.extract st.cursor.pos n).chars.length = n := by
    rw [Text.extract_chars, List.length_take]
    exact Nat.min_eq_left h
  rw [LexState.rest, behind, LexState.advance, Cursor.feed_pos, taken, LexState.rest, List.drop_drop]

theorem retype_text (sc : Scanner) (t : Token) : (retype sc t).text = t.text := by
  unfold retype
  split <;> rfl

theorem retype_kind (sc : Scanner) (t : Token) :
    (retype sc t).kind = (sc.keyword? t.kind t.text.chars).getD t.kind := by
  unfold retype
  split <;> simp [*]

/-- What a request comes to once the token found is settled. An ignored token is passed over. -/
def afterSettling (lx : Lexer) (place : Option ParserPlace) (st : LexState) (kind : String) (n : Nat)
    (result : Except Error Value) : Scan × LexState :=
  if lx.ignore.contains kind then
    match result with
    | .error e => (.failed e, st)
    | .ok _ =>
      if 0 < (st.text.extract st.cursor.pos n).chars.length then lx.next place (lx.behind st kind n)
      else (.failed (.fault .endless ""), st)
  else
    match result with
    | .error e => (.failed e, lx.behind st kind n)
    | .ok (.token t) => (.token t, { lx.behind st kind n with last := some t })
    | .ok v =>
      (.failed (.lexing ("Callbacks must return a token (returned " ++ v.written ++ ")")),
        lx.behind st kind n)

structure Asked (lx : Lexer) (sc : Scanner) (st : LexState) : Prop where
  more : st.cursor.pos < st.text.length
  scanner : lx.scanner = .ok sc
  fits : st.text.bytes = lx.bytes

theorem Asked.next_unmatched (asked : lx.Asked sc st) (none : sc.scan st.rest = none) :
    lx.next place st = (.failed (.unexpectedChars (lx.unmatched sc place st)), st) := by
  unfold LexState.rest at none
  rw [next, dif_pos asked.more, asked.scanner]
  simp only [asked.fits, bne_self_eq_false, Bool.false_eq_true, if_false, none]

theorem Asked.next_found (asked : lx.Asked sc st) (found : sc.scan st.rest = some (kind, n)) :
    lx.next place st =
      lx.afterSettling place st kind n (lx.settle sc (lx.foundToken st kind n)) := by
  unfold LexState.rest at found
  rw [next, dif_pos asked.more, asked.scanner]
  simp only [asked.fits, bne_self_eq_false, Bool.false_eq_true, if_false, found, afterSettling,
    foundToken, behind]
  cases lx.ignore.contains kind with
  | false => rfl
  | true =>
    simp only [if_true]
    cases lx.settle sc (tokenAt kind (st.text.extract st.cursor.pos n) st.cursor) with
    | error e => rfl
    | ok v => rfl

theorem pos_le_next (lx : Lexer) (place : Option ParserPlace) (st : LexState) :
    st.cursor.pos ≤ (lx.next place st).2.cursor.pos := by
  fun_induction lx.next place st with
  | case5 st _ _ _ _ _ _ _ lexeme test _ _ _ _ _ _ ih =>
    exact Nat.le_trans (st.pos_le_advance test lexeme) ih
  | case7 st => exact st.pos_le_advance _ _
  | case8 st => exact st.pos_le_advance _ _
  | case9 st => exact st.pos_le_advance _ _
  | _ => exact Nat.le_refl _

theorem next_at_end (done : ¬ st.cursor.pos < st.text.length) : lx.next place st = (.finished, st) := by
  rw [next, dif_neg done]

end Lexer

end AxisLang
