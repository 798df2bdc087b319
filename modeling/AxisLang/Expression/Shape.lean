import AxisLang.Expression.Spec
import AxisLang.Tensor.Basic

/-! Checking arrays against an expression, and the shapes that result. Each axis name gets a size from
its first plain occurrence; all later occurrences must agree. -/
namespace AxisLang

abbrev Sizes := List (String × Nat)

namespace Shape

/-- The place of the only ellipsis among axes, if there is one. Several are refused. -/
def ellipsisPlace (name : Option String) (axes : List Axis) : Except ExprError (Option Nat) :=
  if 1 < axes.countP Axis.isEllipsis then .error (.ambiguousEllipses name)
  else .ok (axes.findIdx? Axis.isEllipsis)

def productSize? (sizes : Sizes) (names : List String) : Option Nat :=
  (names.mapM fun n => sizes.lookup n).map volume

def productTitle (a : Axis) : String :=
  "Product (<bound method ProductAxis.einsum_repr of " ++ a.written ++ ">)"

/-- Checks one axis of an array against the sizes known so far. A product with a factor of unknown
size passes. -/
def checkAxis (sizes : Sizes) (size : Nat) : Axis → Except ExprError Sizes
  | .product ns =>
    match productSize? sizes ns with
    | none => .ok sizes
    | some n =>
      if n = size then .ok sizes
      else .error (.axisSizes (productTitle (.product ns)) [n, size])
  | .named n =>
    match sizes.lookup n with
    | none => .ok (sizes ++ [(n, size)])
    | some m => if m = size then .ok sizes else .error (.axisSizes n [m, size])
  | .ellipsis => .error (.fault .attribute)

def spareAxis (j : Nat) : Axis :=
  .named ("!ellipsis_" ++ toString j)

/-- The axes of a variable on an array of the given rank, with an ellipsis replaced by the axes it
stands for. Those are put in the place of every axis from the ellipsis at index `e` up to the last
`e` axes. -/
def materialize (axes : List Axis) (ellipsis : Option Nat) (rank : Nat) : List Axis :=
  match ellipsis with
  | none => axes
  | some e =>
    axes.zipIdx.flatMap fun (a, i) =>
      if i < e || axes.length - e ≤ i then [a]
      else (List.range (rank + 1 - axes.length)).map spareAxis

def checkAxes (sizes : Sizes) : List Axis → Shape → Except ExprError Sizes
  | [], _ => .ok sizes
  | _ :: _, [] => .error (.fault .index)
  | a :: axes, n :: shape => do checkAxes (← checkAxis sizes n a) axes shape

def checkVariable (sizes : Sizes) (v : Variable) (shape : Shape) :
    Except ExprError (List Axis × Sizes) := do
  let ellipsis ← ellipsisPlace v.name v.axes
  if ellipsis.isNone && shape.length ≠ v.axes.length then
    throw (.shapeDefinition v.name v.axes.length shape.length)
  let axes := materialize v.axes ellipsis shape.length
  return (axes, ← checkAxes sizes axes shape)

/-- Checks the arrays of several variables, the sizes found for one being known for the next. Where
there are more variables than arrays, or more arrays than variables, the rest is left aside. -/
def checkVariables (sizes : Sizes) :
    List Variable → List Shape → Except ExprError (List (List Axis) × Sizes)
  | v :: vs, shape :: shapes => do
    let (axes, sizes) ← checkVariable sizes v shape
    let (more, sizes) ← checkVariables sizes vs shapes
    return (axes :: more, sizes)
  | _, _ => .ok ([], sizes)

def splitShape (sizes : Sizes) (axes : List Axis) : Except ExprError Shape :=
  (axes.flatMap Axis.names).mapM fun n =>
    match sizes.lookup n with
    | some m => .ok m
    | none => .error (.fault .key)

def splitTo (sizes : Sizes) (axes : List Axis) (shape : Shape) : Except ExprError Shape := do
  let split ← splitShape sizes axes
  if volume split = volume shape then return split else throw (.fault .value)

def splitAll (sizes : Sizes) : List (List Axis) → List Shape → Except ExprError (List Shape)
  | axes :: more, shape :: shapes => do
    let split ← splitTo sizes axes shape
    return split :: (← splitAll sizes more shapes)
  | _, _ => .ok []

def check (inputs : List Variable) (shapes : List Shape) : Except ExprError (List Shape) := do
  let (axes, sizes) ← checkVariables [] inputs shapes
  splitAll sizes axes shapes

def collapseAxes : List Axis → Shape → Except ExprError Shape
  | [], _ => .ok []
  | .product ns :: axes, shape => do
    return volume (shape.take ns.length) :: (← collapseAxes axes (shape.drop ns.length))
  | _ :: _, [] => .error (.fault .index)
  | _ :: axes, n :: shape => do return n :: (← collapseAxes axes shape)

/-- The shape of a result under the axes of the output variable: an ellipsis gives way to the
dimensions it stands for, and the factors of a product are joined. -/
def collapse (output : Option Variable) (shape : Shape) : Except ExprError Shape :=
  match output with
  | none => .ok []
  | some v => do
    let flat := v.flattened
    match ← ellipsisPlace v.name flat with
    | none => collapseAxes v.axes shape
    | some _ =>
      let spares := (List.range (shape.length + 1 - flat.length)).map spareAxis
      collapseAxes (v.axes.flatMap fun a => if a.isEllipsis then spares else [a]) shape

end Shape

def Spec.shapeCheck (s : Spec) (ts : List Tensor) : Except ExprError (List Tensor) := do
  let shapes ← Shape.check s.inputs (ts.map (·.shape))
  return shapes.zipWith (fun shape t => ⟨shape, t.data⟩) ts

def Spec.outputShape (s : Spec) (shape : Shape) : Except ExprError Shape :=
  Shape.collapse s.output shape

end AxisLang
