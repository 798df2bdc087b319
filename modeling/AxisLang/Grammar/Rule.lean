import AxisLang.Text.Case
import AxisLang.Tree.Show

/-! Symbols and rules of a grammar. -/
namespace AxisLang

inductive Symbol where
  | terminal (name : String) (filtered : Bool)
  | nonterminal (label : Label)
deriving DecidableEq, Repr, Inhabited

namespace Symbol

def name : Symbol → String
  | .terminal n _ => n
  | .nonterminal l => l.name

def isTerminal : Symbol → Bool
  | .terminal .. => true
  | .nonterminal _ => false

def isFiltered : Symbol → Bool
  | .terminal _ f => f
  | .nonterminal _ => false

/-- Symbols are the same when both are terminals or both are not, and their names agree. -/
def same (a b : Symbol) : Bool :=
  a.isTerminal == b.isTerminal && a.name == b.name

/-- Whether the children of the symbol's tree take its place: its name starts with an underscore and
it is no terminal. -/
def isInlined (s : Symbol) : Bool :=
  !s.isTerminal && s.name.startsWith "_"

def written : Symbol → String
  | .terminal n _ => "Terminal(" ++ quote n ++ ")"
  | .nonterminal l => "NonTerminal(" ++ l.written ++ ")"

def fullyWritten : Symbol → String
  | .terminal n f => "Terminal(" ++ quote n ++ ", " ++ (if f then "True" else "False") ++ ")"
  | s => s.written

def renamed (f : String → String) : Symbol → Symbol
  | .terminal n filtered => .terminal (f n) filtered
  | .nonterminal l => .nonterminal ⟨f l.name, false⟩

end Symbol

/-- How trees of a rule are built: keep filtered tokens, give way to a single child, and where to
put placeholders for optional parts that are missing. -/
structure RuleOptions where
  keepAll : Bool := false
  expandSingle : Bool := false
  priority : Option Int := none
  template : Option String := none
  gaps : List Bool := []
deriving DecidableEq, Repr, Inhabited

structure Rule where
  origin : Symbol
  expansion : List Symbol
  order : Int := 0
  «alias» : Option String := none
  options : RuleOptions := {}
deriving DecidableEq, Repr, Inhabited

def sameSymbols : List Symbol → List Symbol → Bool
  | [], [] => true
  | a :: as, b :: bs => a.same b && sameSymbols as bs
  | _, _ => false

def writtenBool (b : Bool) : String :=
  if b then "True" else "False"

namespace Rule

def same (a b : Rule) : Bool :=
  a.origin.same b.origin && sameSymbols a.expansion b.expansion

def shown (r : Rule) : String :=
  "<" ++ r.origin.name ++ " : " ++ " ".intercalate (r.expansion.map (·.name)) ++ ">"

def written (r : Rule) : String :=
  let other := (r.alias.map quote).getD "None"
  let options := "RuleOptions(" ++ ", ".intercalate [writtenBool r.options.keepAll,
    writtenBool r.options.expandSingle, (r.options.priority.map toString).getD "None",
    (r.options.template.map quote).getD "None"] ++ ")"
  "Rule(" ++ ", ".intercalate [r.origin.written, bracketed (r.expansion.map (·.written)), other,
    options] ++ ")"

def labelOf? (s : Option String) : Option Label :=
  match s with
  | some s => if s = "" then none else some ⟨s, false⟩
  | none => none

/-- The label of the trees the rule builds: its alias, else its template, else its origin. -/
def label (r : Rule) : Label :=
  match labelOf? r.alias with
  | some l => l
  | none =>
    match labelOf? r.options.template with
    | some l => l
    | none =>
      match r.origin with
      | .nonterminal l => l
      | .terminal n _ => ⟨n, false⟩

end Rule

end AxisLang
