import AxisLang.Expression.Spec

/-! Compiled expressions: a letter for each axis, three dots for an ellipsis, commas between inputs
and an arrow before the output. -/
namespace AxisLang

inductive Subscript where
  | letter (s : String)
  | rest
deriving DecidableEq, Repr, Inhabited

def Subscript.text : Subscript → String
  | .letter s => s
  | .rest => "..."

def Axis.subscripts (letters : Letters) : Axis → Except ExprError (List Subscript)
  | .ellipsis => .ok [.rest]
  | a => a.names.mapM fun n =>
    match letters.lookup n with
    | some s => .ok (.letter s)
    | none => .error (.fault .key)

def Variable.subscripts (letters : Letters) (v : Variable) : Except ExprError (List Subscript) := do
  return (← v.axes.mapM (Axis.subscripts letters)).flatten

def subscriptText (ss : List Subscript) : String :=
  String.join (ss.map Subscript.text)

structure Compiled where
  inputs : List (List Subscript)
  output : List Subscript
deriving DecidableEq, Repr, Inhabited

namespace Compiled

def text (c : Compiled) : String :=
  ",".intercalate (c.inputs.map subscriptText) ++ "->" ++ subscriptText c.output

end Compiled

namespace Spec

/-- Compiles an expression. An absent output has no subscripts. -/
def compile (s : Spec) : Except ExprError Compiled := do
  let inputs ← s.inputs.mapM (Variable.subscripts s.letters)
  let output ←
    match s.output with
    | none => pure []
    | some v => v.subscripts s.letters
  return ⟨inputs, output⟩

end Spec

def translate (s : String) : Except ExprError String := do
  return (← (← Spec.parse s).compile).text

end AxisLang
