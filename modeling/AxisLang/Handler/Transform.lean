import AxisLang.Handler.Basic

/-! Transforming a tree from its leaves up: each node is handed to the handler of its label together
with the results of its children, and each token to the handler of its kind. -/
namespace AxisLang

/-- Marks an error with the rule it arose in; errors about the grammar stay as they are. -/
def inRule (rule : String) : Except Error Value → Except Error Value
  | .ok v => .ok v
  | .error (.grammar text) => .error (.grammar text)
  | .error e => .error (.visit rule e)

namespace Transformer

/-- Calls what a label stands for on the children of a node. A node without a handler is built
anew. -/
def callNode (t : Transformer) (label : Label) (items : List Value) (s : Span) :
    Except Error Value :=
  match t.member? label.name with
  | none => .ok (.tree none label items s)
  | some (.handler h) =>
    if t.strategy = .inlined then h.body (.inline items)
    else inRule label.name (h.callNode label items s)
  | some (.constant type) =>
    if t.strategy = .inlined then .error (notCallable type)
    else inRule label.name (.error (notCallable type))

def callToken (t : Transformer) (tok : Token) : Except Error Value :=
  if t.visitTokens then
    match t.member? tok.kind with
    | none => .ok (.token tok)
    | some (.handler h) => inRule tok.kind (h.body (.token tok))
    | some (.constant type) => inRule tok.kind (.error (notCallable type))
  else .ok (.token tok)

def keepResult (v : Value) (vs : List Value) : List Value :=
  if v.isDiscard then vs else v :: vs

mutual

def resultOf (t : Transformer) : Value → Except Error Value
  | .tree _ l cs s => do
    let items ← t.resultsOf cs
    t.callNode l items s
  | .token tok => t.callToken tok
  | v => .ok v

def resultsOf (t : Transformer) : List Value → Except Error (List Value)
  | [] => .ok []
  | v :: vs => do
    let r ← t.resultOf v
    return keepResult r (← t.resultsOf vs)

end

mutual

def postorder : Value → List Value
  | .tree i l cs s => postorderAll cs ++ [.tree i l cs s]
  | v => [v]

def postorderAll : List Value → List Value
  | [] => []
  | v :: vs => postorder v ++ postorderAll vs

end

/-- One step of the stack method: a node takes as many results from the stack as it has children, or
as there are; `stack` has the latest result first. -/
def stackStep (t : Transformer) (stack : List Value) : Value → Except Error (List Value)
  | .tree _ l cs s => do
    let r ← t.callNode l (stack.take cs.length).reverse s
    return keepResult r (stack.drop cs.length)
  | .token tok => do return keepResult (← t.callToken tok) stack
  | v => .ok (v :: stack)

/-- The stack method. Its result cannot be delivered: it ends in an error in any case. -/
def stacked (t : Transformer) (v : Value) : Error :=
  match (postorder v).foldlM t.stackStep [] with
  | .error e => e
  | .ok [_] => .fault .undefinedName ""
  | .ok _ => .fault .value ""

/-- A transformer with the handlers of others added, their names behind a title and two underscores.
Names that start with an underscore are left out, and no name may be taken already. -/
def merge (base : Transformer) : List (String × Transformer) → Except Error Transformer
  | [] => .ok base
  | (title, t) :: more => do
    let base ← t.members.foldlM (fun (b : Transformer) (name, m) =>
      match m with
      | .constant _ => .ok b
      | .handler h =>
        if name.startsWith "_" || name = "transform" then .ok b
        else
          let full := title ++ "__" ++ name
          if (b.member? full).isSome then
            .error (.fault .attribute
              ("Cannot merge: method '" ++ full ++ "' appears more than once"))
          else .ok { b with members := b.members ++ [(full, .handler h)] }) base
    merge base more

end Transformer

end AxisLang
