import AxisLang.Handler.Visit
import AxisLang.Lexer.Basic
import AxisLang.Text.Case

/-! Ready-made tasks for handlers, and transformers put together from them. -/
namespace AxisLang

inductive NodeTask where
  | count
  | join
  | first
  | list
  | discard
  | none
  | wrap
  | fail
  | refuse
deriving DecidableEq, Repr, Inhabited

inductive TokenTask where
  | upper
  | retype
  | length
  | keep
  | discard
  | fail
  | refuse
deriving DecidableEq, Repr, Inhabited

inductive Carrier where
  | list
  | tuple
deriving DecidableEq, Repr, Inhabited

def Carrier.emptyText : Carrier → String
  | .list => "list index out of range"
  | .tuple => "tuple index out of range"

def NodeTask.run (name : String) (c : Carrier) (items : List Value) :
    NodeTask → Except Error Value
  | .count => .ok (.int items.length)
  | .join => .ok (.str ("(" ++ ",".intercalate (Value.briefAll items) ++ ")"))
  | .first =>
    match items with
    | v :: _ => .ok v
    | [] => .error (.fault .index c.emptyText)
  | .list => .ok (.list items)
  | .discard => .ok .discard
  | .none => .ok .null
  | .wrap => .ok (.node ("w_" ++ name) items)
  | .fail => .error (.fault .value "boom")
  | .refuse => .error (.grammar "bad grammar")

def TokenTask.run (t : Token) : TokenTask → Except Error Value
  | .upper =>
    .ok (.token (t.update Option.none (some { t.text with chars := upperText t.text.chars })))
  | .retype => .ok (.token (t.update (some "NEW") Option.none))
  | .length => .ok (.int t.content.length)
  | .keep => .ok (.token t)
  | .discard => .ok .discard
  | .fail => .error (.fault .value "boom")
  | .refuse => .error (.grammar "bad token")

/-- The task as a handler's body. A handler that is given the span shows whether it is empty, one that
is given the whole tree shows its label. -/
def NodeTask.body (name : String) (task : NodeTask) : Args → Except Error Value
  | .children items => task.run name .list items
  | .inline items => task.run name .tuple items
  | .span s items => do return .list [.bool s.empty, ← task.run name .list items]
  | .spanInline s items => do return .list [.bool s.empty, ← task.run name .tuple items]
  | .tree l items _ => do return .list [.str "tree", .str l.name, ← task.run name .list items]
  | .token t => task.run name .list (t.content.map fun c => .str (String.singleton c))

def TokenTask.body (task : TokenTask) : Args → Except Error Value
  | .token t => task.run t
  | _ => .error (.fault .attribute "'list' object has no attribute 'update'")

def TokenTask.action (task : TokenTask) : TokenAction :=
  fun t => task.run t

inductive VisitTask where
  | note
  | rename
  | prune
  | grow
  | fail
deriving DecidableEq, Repr, Inhabited

def VisitTask.word : VisitTask → String
  | .note => "log"
  | .rename => "rename"
  | .prune => "prune"
  | .grow => "grow"
  | .fail => "raise"

def VisitTask.handler (task : VisitTask) : VisitHandler := fun c =>
  let noted : VisitEffect :=
    { lines := [c.label.name ++ ":" ++ task.word ++ ":" ++ toString c.children.length] }
  match task with
  | .note => noted
  | .rename => { noted with leaves := some { c with label := ⟨"v_" ++ c.label.name, false⟩ } }
  | .prune => { noted with leaves := some { c with children := [] } }
  | .grow => { noted with leaves := some { c with children := c.children ++ [.node "grown" []] } }
  | .fail => { noted with failure := some (.fault .value "") }

def noteLabel : VisitHandler := fun c =>
  { lines := ["default:" ++ c.label.name] }

inductive Marking where
  | convention (c : Convention)
  | contradictory
deriving DecidableEq, Repr, Inhabited

def Marking.read : Marking → Except Error Convention
  | .convention c => .ok c
  | .contradictory => .error (.fault .value "")

structure TaskRule where
  task : NodeTask
  outer : Option Marking := Option.none
  inner : Option Marking := Option.none
deriving DecidableEq, Repr, Inhabited

/-- A transformer put together from tasks. `marking` is that of the whole, for rules that have none
of their own; `constants` are names with a value that cannot be called, given by its type. -/
structure TaskTransformer where
  strategy : Strategy := .pure
  rules : List (String × TaskRule) := []
  tokens : List (String × TokenTask) := []
  visitTokens : Bool := true
  marking : Option Marking := Option.none
  constants : List (String × String) := []
deriving Repr, Inhabited

namespace TaskTransformer

/-- The marking of a rule: its own, or that of the whole unless its name starts with an
underscore. -/
def markingOf (whole : Option Convention) (name : String) (r : TaskRule) :
    Except Error Convention := do
  let inner ← r.inner.mapM Marking.read
  let outer ← r.outer.mapM Marking.read
  match outer, inner with
  | some c, _ => return c
  | Option.none, some c => return c
  | Option.none, Option.none =>
    return if name.startsWith "_" then .plain else whole.getD .plain

def build (t : TaskTransformer) : Except Error Transformer := do
  let whole ← t.marking.mapM Marking.read
  let handlers ← t.rules.mapM fun (name, r) => do
    let convention ← markingOf whole name r
    return (name, Member.handler ⟨name, convention, r.task.body name⟩)
  let tokens := t.tokens.map fun (name, task) =>
    (name, Member.handler ⟨name, .plain, task.body⟩)
  let constants := t.constants.map fun (name, type) => (name, Member.constant type)
  return {
    strategy := t.strategy
    members := constants ++ handlers ++ tokens
    visitTokens := t.visitTokens }

end TaskTransformer

end AxisLang
