import AxisLang.Expression.Axis
import AxisLang.Expression.Grammar

/-! Expressions after parsing: input variables, perhaps an output variable, and a letter for each
axis name of the inputs. -/
namespace AxisLang

/-- A parsed expression. `letters` has one entry for each axis name of the inputs, in the order in
which the names first occur. -/
structure Spec where
  inputs : List Variable
  output : Option Variable
  letters : Letters
deriving DecidableEq, Repr, Inhabited

def lowered (s : String) : String :=
  String.ofList (s.toList.map Char.toLower)

namespace Variable

def firstText : Value → Except ExprError String
  | .tree _ _ cs _ =>
    match cs with
    | [] => .error (.fault .index)
    | .token t :: _ => .ok (String.ofList t.text.chars)
    | _ => .error (.fault .attribute)
  | _ => .error (.fault .attribute)

def axisOfTree : Value → Except ExprError (Option Axis)
  | .tree id l cs s =>
    if l.name = "name" then do
      return some (.named (lowered (← firstText (.tree id l cs s))))
    else if l.name = "product_axis" then do
      return some (.product (← cs.mapM fun c => return lowered (← firstText c)))
    else if l.name = "ellipsis" then .ok (some .ellipsis)
    else .ok none
  | _ => .error (.fault .attribute)

def axesOfTree : Value → Except ExprError (List Axis)
  | .tree _ _ cs _ => do return (← cs.mapM axisOfTree).filterMap id
  | _ => .error (.fault .attribute)

/-- The variable that a tree describes. With two children the first is the name and the second the
axes; else the first child is one of them. -/
def ofTree : Value → Except ExprError Variable
  | .tree _ l cs _ =>
    if l.name ≠ "variable" then .error (.fault .assertion)
    else
      match cs with
      | [name, axes] => do return ⟨some (← firstText name), ← axesOfTree axes⟩
      | [] => .error (.fault .index)
      | .tree id m ds s :: _ =>
        if m.name = "name" then do return ⟨some (← firstText (.tree id m ds s)), []⟩
        else if m.name = "axes" then do return ⟨none, ← axesOfTree (.tree id m ds s)⟩
        else .error (.fault .runtime)
      | _ => .error (.fault .attribute)
  | _ => .error (.fault .attribute)

end Variable

/-- The letter of the axis with the given number; a negative number counts from the end. -/
def letterAt (axis : String) (index : Int) : Except ExprError String :=
  if (axisLetters.length : Int) ≤ index then .error (.tooManyAxes axis index)
  else
    match itemAt? axisLetters index with
    | some c => .ok (String.singleton c)
    | none => .error (.fault .index)

namespace Spec

def assign (letters : Letters) (name : String) : Except ExprError Letters :=
  if (letters.lookup name).isSome then .ok letters
  else do return letters ++ [(name, ← letterAt name letters.length)]

/-- The variables with default names for those that have none. -/
def withNames (vs : List Variable) : List Variable :=
  vs.zipIdx.map fun (v, i) => { v with name := some (v.name.getD ("input_" ++ toString i)) }

def inputNames (inputs : List Variable) : List String :=
  inputs.flatMap Variable.axisNames

def checkOutput (letters : Letters) (output : Option Variable) : Except ExprError Unit :=
  match output with
  | none => .ok ()
  | some v =>
    match v.axisNames.find? fun n => (letters.lookup n).isNone with
    | some n => .error (.axisNotFound n)
    | none => .ok ()

def ofVariables (inputs : List Variable) (output : Option Variable) : Except ExprError Spec := do
  let letters ← (inputNames inputs).foldlM assign []
  checkOutput letters output
  return ⟨withNames inputs, output, letters⟩

def isTree (name : String) (v : Value) : Bool :=
  v.label?.any fun l => l.name == name

def ofTree (v : Value) : Except ExprError Spec :=
  match v.children with
  | [inputs, output] =>
    if isTree "einsum" v && isTree "input_variables" inputs && isTree "output_variable" output then
      do
        let ins ← inputs.children.mapM Variable.ofTree
        let out ←
          match output.children with
          | [] => pure none
          | t :: _ => do pure (some (← Variable.ofTree t))
        ofVariables ins out
    else .error (.fault .assertion)
  | _ => .error (.fault .assertion)

def parse (s : String) : Except ExprError Spec :=
  match Expression.tree s with
  | .ok v => ofTree v
  | .error e => .error (.parsing e)

def inputAxes (s : Spec) : List String :=
  sortedNames (inputNames s.inputs)

def outputAxes (s : Spec) : List String :=
  sortedNames ((s.output.map Variable.axisNames).getD [])

end Spec

end AxisLang
