import AxisLang.Error
import AxisLang.Tree.Value

/-! Spans of trees from the spans of their parts. A tree starts where its first part with a place
starts and ends where its last one ends; parts that the tree dropped count too. -/
namespace AxisLang

inductive PositionRule where
  | off
  | all
  | skipping (names : List String)
deriving DecidableEq, Repr, Inhabited

namespace Span

def ofToken (t : Token) : Span :=
  { empty := false, line := some t.line, column := some t.column, start := some t.start,
    endLine := some t.endLine, endColumn := some t.endColumn, stop := some t.stop }

/-- The outer entry if there is one, else the inner, which must be there in any case. -/
def outermost (inner outer : Option (Option Int)) : Except Error (Option Int) :=
  match inner with
  | none => .error (.fault .attribute "")
  | some n => .ok (outer.getD n)

/-- The span with its start taken from `m`. A start already there is kept; the outer start is always
set. -/
def startingAt (s m : Span) : Except Error Span := do
  let s ←
    if s.line.isSome then pure s
    else do
      let line ← outermost m.line m.outerLine
      let column ← outermost m.column m.outerColumn
      let start ← outermost m.start m.outerStart
      pure {
        s with
        line := some line
        column := some column
        start := some start
        empty := false }
  let outerLine ← outermost m.line m.outerLine
  let outerColumn ← outermost m.column m.outerColumn
  return { s with outerLine := some outerLine, outerColumn := some outerColumn }

def endingAt (s m : Span) : Except Error Span := do
  let s ←
    if s.endLine.isSome then pure s
    else do
      let endLine ← outermost m.endLine m.outerEndLine
      let endColumn ← outermost m.endColumn m.outerEndColumn
      let stop ← outermost m.stop m.outerStop
      pure {
        s with
        endLine := some endLine
        endColumn := some endColumn
        stop := some stop
        empty := false }
  let outerEndLine ← outermost m.endLine m.outerEndLine
  let outerEndColumn ← outermost m.endColumn m.outerEndColumn
  return { s with outerEndLine := some outerEndLine, outerEndColumn := some outerEndColumn }

end Span

namespace PositionRule

def admits : PositionRule → Value → Bool
  | .skipping names, .tree _ l _ _ => !names.contains l.name
  | .skipping names, .token t => !names.contains t.kind
  | _, _ => true

/-- The span of a part that has a place: a tree that is not empty, or a token. -/
def spanOf? (p : PositionRule) (v : Value) : Option Span :=
  if p.admits v then
    match v with
    | .tree _ _ _ s => if s.empty then none else some s
    | .token t => some (Span.ofToken t)
    | _ => none
  else none

def locate (p : PositionRule) (parts : List Value) : Value → Except Error Value
  | .tree id l cs s => do
    let s ←
      match parts.findSome? p.spanOf? with
      | some m => s.startingAt m
      | none => pure s
    let s ←
      match parts.reverse.findSome? p.spanOf? with
      | some m => s.endingAt m
      | none => pure s
    return .tree id l cs s
  | v => .ok v

end PositionRule

end AxisLang
