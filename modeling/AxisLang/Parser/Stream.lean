import AxisLang.Lexer.Contextual
import AxisLang.Parser.Machine
import AxisLang.Parser.Settings

/-! Running the machine over a stream of tokens. The stream is read on demand: a contextual lexer asks
the machine for its state before each token. -/
namespace AxisLang

inductive TokenStream where
  | text (lexer : ContextualLexer) (st : LexState)
  | tokens (ts : List Token)
  | broken (e : Error)

namespace TokenStream

def next (place : ParserPlace) : TokenStream → Scan × TokenStream
  | .text lexer st =>
    let (scan, st) := lexer.next place st
    (scan, .text lexer st)
  | .tokens [] => (.finished, .tokens [])
  | .tokens (t :: ts) => (.token t, .tokens ts)
  | .broken e => (.failed e, .broken e)

/-- A measure that each token makes smaller. -/
def size : TokenStream → Nat
  | .text _ st => st.remaining
  | .tokens ts => ts.length
  | .broken _ => 0

end TokenStream

structure RunConf (α : Type) where
  table : Table
  semantics : Semantics α
  final : Nat
  layout : Option Layout := none

structure Progress (α : Type) where
  stack : Stack α
  indent : IndentState := {}
  last : Option Token := none

structure RunFailure where
  error : Error
  states : List Nat
deriving Repr, Inhabited

namespace RunConf

variable {α : Type}

def feedAll (c : RunConf α) : List Token → Progress α → Except RunFailure (Progress α)
  | [], p => .ok p
  | t :: ts, p =>
    match Machine.feed c.table c.semantics c.final false t p.stack with
    | .shifted stack => c.feedAll ts { p with stack, last := some t }
    | .accepted _ stack => c.feedAll ts { p with stack, last := some t }
    | .failed e stack => .error ⟨e, stack.states⟩

def filtered (c : RunConf α) (p : Progress α) (t : Token) : Indented :=
  match c.layout with
  | some (.indent r) => r.step p.indent t
  | _ => ⟨[t], none, p.indent⟩

def closing (c : RunConf α) (p : Progress α) : Indented :=
  match c.layout with
  | some (.indent r) => r.finish p.indent
  | _ => ⟨[], none, p.indent⟩

/-- Feeds what the filter yields; an error of the filter comes after the tokens before it. -/
def advance (c : RunConf α) (p : Progress α) (x : Indented) : Except RunFailure (Progress α) := do
  let p ← c.feedAll x.tokens { p with indent := x.state }
  match x.error with
  | some e => .error ⟨e, p.stack.states⟩
  | none => .ok p

/-- The end token. It stands where the last token stands, if that has any text. -/
def endToken (last : Option Token) : Token :=
  let bare : Token := {
    kind := Token.endKind
    text := ⟨[], false⟩
    start := some 0
    line := some 1
    column := some 1 }
  match last with
  | some t => if t.content.isEmpty then bare else Token.borrow Token.endKind ⟨[], false⟩ t
  | none => bare

def conclude (c : RunConf α) (p : Progress α) : Except RunFailure α := do
  let p ← c.advance p (c.closing p)
  match Machine.feed c.table c.semantics c.final true (endToken p.last) p.stack with
  | .accepted v _ => .ok v
  | .shifted stack => .error ⟨.fault .assertion "", stack.states⟩
  | .failed e stack => .error ⟨e, stack.states⟩

def run (c : RunConf α) (stream : TokenStream) (p : Progress α) : Except RunFailure α :=
  match stream.next p.stack.place with
  | (.failed e, _) => .error ⟨e, p.stack.states⟩
  | (.finished, _) => c.conclude p
  | (.token t, rest) =>
    match c.advance p (c.filtered p t) with
    | .error f => .error f
    | .ok p =>
      if _less : rest.size < stream.size then c.run rest p
      else .error ⟨.fault .endless "", p.stack.states⟩
termination_by stream.size

end RunConf

end AxisLang
