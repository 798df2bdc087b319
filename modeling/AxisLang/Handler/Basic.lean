import AxisLang.Error
import AxisLang.Tree.Show

/-! Handlers of trees and tokens. A transformer holds handlers by name: a tree is handled by the one
named like its label, a token by the one named like its kind. -/
namespace AxisLang

inductive Args where
  | children (items : List Value)
  | inline (items : List Value)
  | span (s : Span) (items : List Value)
  | spanInline (s : Span) (items : List Value)
  | tree (label : Label) (items : List Value) (s : Span)
  | token (t : Token)
deriving Repr, Inhabited

/-- How a handler wants to be called: with the list of children, with the children one by one, with
the span in front of either, with the whole tree, or with the children in reverse order. -/
inductive Convention where
  | plain
  | inline
  | span
  | spanInline
  | tree
  | reversed
deriving DecidableEq, Repr, Inhabited

structure Handler where
  name : String
  convention : Convention
  body : Args → Except Error Value

/-- What a name may stand for in a transformer: a handler, or a value that cannot be called, of which
only the name of its type matters. -/
inductive Member where
  | handler (h : Handler)
  | constant (type : String)

inductive Strategy where
  | pure
  | inPlace
  | inPlaceRecursive
  | stacked
  | inlined
deriving DecidableEq, Repr, Inhabited

structure Transformer where
  strategy : Strategy := .pure
  members : List (String × Member) := []
  visitTokens : Bool := true

inductive Transformation where
  | single (t : Transformer)
  | chain (ts : List Transformer)

namespace Handler

def callNode (h : Handler) (label : Label) (items : List Value) (s : Span) : Except Error Value :=
  h.body (match h.convention with
    | .plain => .children items
    | .inline => .inline items
    | .span => .span s items
    | .spanInline => .spanInline s items
    | .tree => .tree label items s
    | .reversed => .children items.reverse)

end Handler

namespace Transformer

def member? (t : Transformer) (name : String) : Option Member :=
  t.members.lookup name

end Transformer

def notCallable (type : String) : Error :=
  .fault .type ("'" ++ type ++ "' object is not callable")

end AxisLang
