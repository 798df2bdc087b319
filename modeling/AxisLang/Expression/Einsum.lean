import AxisLang.Expression.Shape
import AxisLang.Tensor.Contraction

/-! Evaluating expressions on arrays. -/
namespace AxisLang

namespace Spec

def contract (c : Compiled) (ts : List Tensor) : Except ExprError Tensor :=
  match Contraction.contract? c ts with
  | some t => .ok t
  | none => .error (.fault .value)

/-- Evaluates an expression on arrays as they are: nothing is checked and products are not split. -/
def evaluateFast (s : Spec) (ts : List Tensor) : Except ExprError Tensor := do
  contract (← s.compile) ts

/-- Evaluates an expression by a compiled form: the arrays are checked and split, and the result is
joined again. -/
def evaluateAs (s : Spec) (compiled : Compiled) (ts : List Tensor) : Except ExprError Tensor := do
  let result ← contract compiled (← s.shapeCheck ts)
  match result.reshape? (← s.outputShape result.shape) with
  | some t => return t
  | none => throw (.fault .value)

def evaluate (s : Spec) (ts : List Tensor) : Except ExprError Tensor := do
  s.evaluateAs (← s.compile) ts

end Spec

def einsum (s : String) (ts : List Tensor) : Except ExprError Tensor := do
  (← Spec.parse s).evaluate ts

def einsumFast (s : String) (ts : List Tensor) : Except ExprError Tensor := do
  (← Spec.parse s).evaluateFast ts

end AxisLang
