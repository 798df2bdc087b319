import AxisLang.Expression.Error

/-! Axes and variables of an expression. -/
namespace AxisLang

inductive Axis where
  | named (name : String)
  | product (names : List String)
  | ellipsis
deriving DecidableEq, Repr, Inhabited

abbrev Letters := List (String × String)

namespace Axis

def names : Axis → List String
  | .named n => [n]
  | .product ns => ns
  | .ellipsis => []

/-- An axis without products: a product gives way to its factors. -/
def flattened : Axis → List Axis
  | .product ns => ns.map .named
  | a => [a]

def isEllipsis : Axis → Bool
  | .ellipsis => true
  | _ => false

def writtenName (n : String) : String :=
  "(NamedAxis: " ++ n ++ ")"

def written : Axis → String
  | .named n => writtenName n
  | .product ns => "(ProductAxis: " ++ bracketed (ns.map writtenName) ++ ")"
  | .ellipsis => "(EllipsisAxis)"

theorem names_flatMap_flattened (a : Axis) : a.flattened.flatMap names = a.names := by
  cases a with
  | named n => rfl
  | product ns => induction ns with
    | nil => rfl
    | cons n ns ih => simp [flattened, names] at ih ⊢; exact ih
  | ellipsis => rfl

end Axis

structure Variable where
  name : Option String
  axes : List Axis
deriving DecidableEq, Repr, Inhabited

namespace Variable

def axisNames (v : Variable) : List String :=
  v.axes.flatMap Axis.names

def flattened (v : Variable) : List Axis :=
  v.axes.flatMap Axis.flattened

def written (v : Variable) : String :=
  "(" ++ shownName v.name ++ ": " ++ bracketed (v.axes.map Axis.written) ++ ")"

end Variable

end AxisLang
