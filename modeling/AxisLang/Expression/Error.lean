import AxisLang.Datum
import AxisLang.Error

/-! What can be wrong with an expression or with the arrays given for it. -/
namespace AxisLang

def axisLetters : List Char :=
  "ABCDEFGHIJKLMNOPQRSTUVWXYZabcdefghijklmnopqrstuvwxyz".toList

namespace Notice

def axisSizes (axis : String) (sizes : List String) : String :=
  "Axis \"" ++ axis ++ "\" has inconsistent sizes across tensors: found " ++ ", ".intercalate sizes

def shapeDefinition (tensor defined found : String) : String :=
  "Dimensionality for tensor \"" ++ tensor ++ "\" differs from definition.  Expected " ++ defined
    ++ " axes, found " ++ found ++ "."

def ambiguousEllipses (tensor : String) : String :=
  "Ambiguous shape was found for tensor " ++ tensor
    ++ ":  Multiple ellipses \"...\" were encountered"

def axisNotFound (axis : String) : String :=
  "Output axis " ++ axis ++ " not found in any input tensor."

def tooManyAxes (axis index : String) : String :=
  "Axis " ++ axis ++ ", unique index " ++ index
    ++ ", exceeds available characters for einsum: " ++ toString axisLetters.length

end Notice

/-- An error about an expression or its arrays. A fault is a breach that has no message. -/
inductive ExprError where
  | parsing (e : Error)
  | axisSizes (axis : String) (sizes : List Nat)
  | shapeDefinition (tensor : Option String) (defined found : Nat)
  | ambiguousEllipses (tensor : Option String)
  | axisNotFound (axis : String)
  | tooManyAxes (axis : String) (index : Int)
  | fault (kind : FaultKind)
deriving Repr, Inhabited

def shownName (name : Option String) : String :=
  name.getD "None"

namespace ExprError

def message? : ExprError → Option String
  | .parsing e => e.message?
  | .axisSizes axis sizes => some (Notice.axisSizes axis (sizes.map toString))
  | .shapeDefinition tensor defined found =>
    some (Notice.shapeDefinition (shownName tensor) (toString defined) (toString found))
  | .ambiguousEllipses tensor => some (Notice.ambiguousEllipses (shownName tensor))
  | .axisNotFound axis => some (Notice.axisNotFound axis)
  | .tooManyAxes axis index => some (Notice.tooManyAxes axis (toString index))
  | .fault _ => none

end ExprError

inductive NoticeKind where
  | axisSizes
  | shapeDefinition
  | ambiguousEllipses
  | axisNotFound
  | tooManyAxes
deriving DecidableEq, Repr, Inhabited

/-- The message of an error built from plain data, and the data by name. There is none if the number
of data does not fit the kind. -/
def NoticeKind.build? : NoticeKind → List Datum → Option (String × List (String × Datum))
  | .axisSizes, [axis, sizes] =>
    some (Notice.axisSizes axis.plain (sizes.items.map Datum.plain),
      [("axis", axis), ("sizes", sizes)])
  | .shapeDefinition, [tensor, defined, found] =>
    some (Notice.shapeDefinition tensor.plain defined.plain found.plain,
      [("tensor_name", tensor), ("num_def", defined), ("num_found", found)])
  | .ambiguousEllipses, [tensor] =>
    some (Notice.ambiguousEllipses tensor.plain, [("tensor_name", tensor)])
  | .axisNotFound, [axis] => some (Notice.axisNotFound axis.plain, [("axis", axis)])
  | .tooManyAxes, [axis, index] =>
    some (Notice.tooManyAxes axis.plain index.plain, [("axis", axis), ("index", index)])
  | _, _ => none

end AxisLang
