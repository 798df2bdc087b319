import AxisLang.Lexer.Basic

/-! Contextual lexing: the state of the parser decides which terminals are tried. -/
namespace AxisLang

structure ContextualLexer where
  byState : List (Nat × Lexer)
  root : Lexer

namespace ContextualLexer

def build (c : LexerConf) (states : List (Nat × List String)) (always : List String) :
    Except Error ContextualLexer := do
  let byState ← states.mapM fun (state, accepts) => do
    let wanted := accepts ++ c.ignore ++ always
    let terminals := c.known.filter fun t => wanted.contains t.name
    return (state, ← Lexer.build { c with terminals })
  return { byState, root := ← Lexer.build c }

/-- Finds the next token wanted in the parser's state. Where none matches, a token that the root
lexer finds there is reported as unexpected. -/
def next (cl : ContextualLexer) (place : ParserPlace) (st : LexState) : Scan × LexState :=
  match cl.byState.lookup place.state with
  | none => (.failed (.fault .key ""), st)
  | some lx =>
    match lx.next (some place) st with
    | (.failed (.unexpectedChars r), st) =>
      match cl.root.next (some place) st with
      | (.token t, after) =>
        (.failed (.unexpectedToken {
          offender := .token t
          expected := r.expected
          history := some [st.last]
          terminals := cl.root.known
          place := some place }), after)
      | (.finished, after) => (.failed (.fault .endOfInput ""), after)
      | (.failed (.unexpectedChars _), after) => (.failed (.unexpectedChars r), after)
      | (.failed e, after) => (.failed e, after)
    | r => r

end ContextualLexer

end AxisLang
