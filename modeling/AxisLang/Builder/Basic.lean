import AxisLang.Builder.Children
import AxisLang.Builder.Positions
import AxisLang.Handler.Basic

/-! Building trees: for each rule, what becomes of the values of its symbols. -/
namespace AxisLang

abbrev NodeBuilder := List Value → Except Error Value

/-- How trees are built for a whole grammar. With `ambiguous` set, children may be collections of
alternatives; with `placeholders` set, missing optional parts are shown. -/
structure BuilderOptions where
  positions : PositionRule := .off
  ambiguous : Bool := false
  placeholders : Bool := false
deriving DecidableEq, Repr, Inhabited

namespace Builder

def makeTree (label : Label) : NodeBuilder :=
  fun items => .ok (.tree none label items {})

/-- The builder that a transformer gives for a label: its handler of that name, else the plain
tree. Handlers that want a span cannot be used while parsing. -/
def userBuilder (t : Option Transformer) (label : Label) : Except Error NodeBuilder :=
  match t with
  | none => .ok (makeTree label)
  | some t =>
    match t.member? label.name with
    | none => .ok (makeTree label)
    | some (.constant type) =>
      if t.strategy = .inPlace then .ok fun _ => .error (.fault .attribute "")
      else .ok fun _ => .error (notCallable type)
    | some (.handler h) =>
      match h.convention with
      | .span => .error (.fault .unsupported "")
      | .spanInline => .error (.fault .unsupported "")
      | .plain =>
        match t.strategy with
        | .inPlace => .ok fun items => h.body (.tree ⟨h.name, false⟩ items {})
        | .inlined => .ok fun items => h.body (.inline [.list items])
        | _ => .ok fun items => h.body (.children items)
      | _ => .ok fun items => h.callNode label items {}

def expandSingle (f : NodeBuilder) : NodeBuilder
  | [v] => .ok v
  | items => f items

def select (s : Selection) (f : NodeBuilder) : NodeBuilder := fun items => do
  f (← s.gather items)

def locate (p : PositionRule) (f : NodeBuilder) : NodeBuilder := fun items => do
  p.locate items (← f items)

def ambiguousName : String := "_ambig"

def frontName : String := "_iambig"

def isLabelled (name : String) : Value → Bool
  | .tree _ l _ _ => l.name == name
  | _ => false

/-- Refuses collections of alternatives among the children: they cannot be multiplied out here. -/
def refuseAmbiguous (f : NodeBuilder) : NodeBuilder := fun items =>
  if items.any (isLabelled ambiguousName) then .error (.fault .attribute "") else f items

mutual

/-- The lists of children that stand for a list whose first item is a collection of fronts; no list
if the first item is none. -/
def frontLists : List Value → Except Error (List (List Value))
  | [] => .ok []
  | .tree _ l alternatives _ :: rest =>
    if l.name == frontName then frontAlternatives rest alternatives else .ok []
  | _ => .ok []

def frontAlternatives (rest : List Value) : List Value → Except Error (List (List Value))
  | [] => .ok []
  | .tree _ _ items _ :: others => do
    let inner ← frontLists items
    let here := if inner.isEmpty then [items ++ rest] else inner.map (· ++ rest)
    return here ++ (← frontAlternatives rest others)
  | _ :: _ => .error (.fault .attribute "")

end

def expandFront (f : NodeBuilder) : NodeBuilder := fun items => do
  match ← frontLists items with
  | [] => f items
  | lists => return .tree none ⟨ambiguousName, false⟩ (← lists.mapM f) {}

def hasInlined (r : Rule) : Bool :=
  r.expansion.any fun s => r.options.keepAll || (!s.isFiltered && s.isInlined)

/-- The steps around a rule's own builder, innermost first: give way to a single child, select
children, set the span, refuse or multiply out alternatives. -/
def stepsOf (o : BuilderOptions) (r : Rule) : Except Error (List (NodeBuilder → NodeBuilder)) := do
  let selection ← Selection.ofRule? r.expansion r.options.keepAll o.ambiguous
    (if o.placeholders then r.options.gaps else [])
  let single := r.options.expandSingle && (Rule.labelOf? r.alias).isNone
  return (if single then [expandSingle] else [])
    ++ (match selection with
      | some s => [select s]
      | none => [])
    ++ (if o.positions = .off then [] else [locate o.positions])
    ++ (if o.ambiguous && hasInlined r then [refuseAmbiguous] else [])
    ++ (if o.ambiguous then [expandFront] else [])

def build (o : BuilderOptions) (t : Option Transformer) (rules : List Rule) :
    Except Error (List (Rule × NodeBuilder)) := do
  let steps ← rules.mapM fun r => return (r, ← stepsOf o r)
  let builders ← steps.foldlM (fun done (r, fs) => do
    let own ← userBuilder t r.label
    if done.any fun (d : Rule × NodeBuilder) => d.1.same r then
      throw (.grammar ("Rule '" ++ r.shown ++ "' already exists"))
    return (r, fs.foldl (fun f step => step f) own) :: done) []
  return builders.reverse

def lookup? (builders : List (Rule × NodeBuilder)) (r : Rule) : Option NodeBuilder :=
  (builders.find? fun b => b.1.same r).map (·.2)

end Builder

end AxisLang
