import AxisLang.Tree.Value

/-! Trees as text: the written form, the indented form and the labels of a display. -/
namespace AxisLang

def Label.written (l : Label) : String :=
  if l.ofRule then "Token('RULE', " ++ quote l.name ++ ")" else quote l.name

namespace Value

mutual

def written : Value → String
  | .null => "None"
  | .bool true => "True"
  | .bool false => "False"
  | .int n => toString n
  | .str s => quote s
  | .token t => t.written
  | .tree _ l cs _ => "Tree(" ++ l.written ++ ", " ++ bracketed (writtenAll cs) ++ ")"
  | .list xs => bracketed (writtenAll xs)
  | .discard => "lark.visitors.Discard"

def writtenAll : List Value → List String
  | [] => []
  | v :: vs => written v :: writtenAll vs

end

def plain : Value → String
  | .str s => s
  | .token t => t.shown
  | v => v.written

mutual

/-- The value as handlers show it: a tree by its label, null as `~`, a list in brackets with
semicolons. -/
def brief : Value → String
  | .tree _ l _ _ => "<" ++ l.name ++ ">"
  | .null => "~"
  | .list xs => "[" ++ ";".intercalate (briefAll xs) ++ "]"
  | v => v.plain

def briefAll : List Value → List String
  | [] => []
  | v :: vs => brief v :: briefAll vs

end

def indentBy (indent : String) : Nat → String
  | 0 => ""
  | n + 1 => indent ++ indentBy indent n

mutual

/-- One line per value, deeper values indented further; a single child that is no tree stands on
the line of its parent after a tab. -/
def indented (indent : String) (level : Nat) : Value → String
  | .tree _ l cs _ =>
    match cs with
    | [.tree i m ds s] =>
      indentBy indent level ++ l.name ++ "\n" ++ indented indent (level + 1) (.tree i m ds s)
    | [v] => indentBy indent level ++ l.name ++ "\t" ++ plain v ++ "\n"
    | cs => indentBy indent level ++ l.name ++ "\n" ++ indentedAll indent (level + 1) cs
  | v => indentBy indent level ++ plain v ++ "\n"

def indentedAll (indent : String) (level : Nat) : List Value → String
  | [] => ""
  | v :: vs => indented indent level v ++ indentedAll indent level vs

end

inductive Display where
  | mk (label : String) (kids : List Display)
deriving Repr, Inhabited

mutual

def display : Value → Display
  | .tree _ l cs _ => .mk ("[bold]" ++ l.name ++ "[/bold]") (displayAll cs)
  | v => .mk ("[green]" ++ plain v ++ "[/green]") []

def displayAll : List Value → List Display
  | [] => []
  | v :: vs => display v :: displayAll vs

end

end Value

end AxisLang
