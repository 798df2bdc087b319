import AxisLang.Handler.Task

/-! Interpreting a tree from the top: the handler of a node decides whether its children are
interpreted at all. -/
namespace AxisLang

/-- How an interpreter deals with a node: a task on its children as they are, one by one or as a list,
a task on the results of its children, or the node's label with those results. -/
inductive InterpretTask where
  | raw (task : NodeTask)
  | rawInline (task : NodeTask)
  | visited (task : NodeTask)
  | descend
deriving DecidableEq, Repr, Inhabited

structure Interpreter where
  tasks : List (String × InterpretTask)
deriving DecidableEq, Repr, Inhabited

namespace Interpreter

def atNode (w : Interpreter) (l : Label) (cs : List Value)
    (results : Unit → Except Error (List Value)) : Except Error Value :=
  match w.tasks.lookup l.name with
  | none => do return .list (← results ())
  | some (.raw task) => task.run l.name .list cs
  | some (.rawInline task) => task.run l.name .tuple cs
  | some (.visited task) => do task.run l.name .list (← results ())
  | some .descend => do return .list [.str l.name, .list (← results ())]

mutual

def resultOf (w : Interpreter) : Value → Except Error Value
  | .tree _ l cs _ => w.atNode l cs fun _ => w.resultsOf cs
  | v => .ok v

def resultsOf (w : Interpreter) : List Value → Except Error (List Value)
  | [] => .ok []
  | v :: vs => do
    let r ← w.resultOf v
    return r :: (← w.resultsOf vs)

end

end Interpreter

end AxisLang
