import AxisLang.Expression.Compile
import AxisLang.Expression.Einsum

/-! Sample expressions for measuring the library: families indexed by a number, and what the library
makes of the first `n` members of a family. -/
namespace AxisLang.Workload

/-- A member of the family of texts. Its kind repeats with period eight; the first two kinds name
their axes after the index. -/
def expression (i : Nat) : String :=
  let n := toString i
  match i % 8 with
  | 0 => "A[row_" ++ n ++ ", col_" ++ n ++ "], B[col_" ++ n ++ ", out] -> [row_" ++ n ++ ", out]"
  | 1 =>
    "A[a" ++ n ++ ", b" ++ n ++ "], B[b" ++ n ++ ", c" ++ n ++ "] -> [a" ++ n ++ ", c" ++ n ++ "]"
  | 2 => "A[i, j, k] ->"
  | 3 => "A[i, ..., j], B[j, k] -> [i, ..., k]"
  | 4 => "A[i, j], B[k, l] -> [i * k, j * l]"
  | 5 => "A[alpha, beta, gamma, delta] ->"
  | 6 => "A[i, j, k], B[i, j, r] -> [k, r]"
  | _ => "A[ax_1, ax_2, ax_3], B[ax_3] -> [ax_1, ax_2]"

def closing : List String :=
  List.replicate 2 "A[i, j], B[j, k] -> [i, k]"

def letters (n : Nat) : Except ExprError (List Letters) :=
  (List.range n).mapM fun i => do return (← Spec.parse (expression i)).letters

def compiled (n : Nat) : Except ExprError (List String) :=
  ((List.range n).map expression ++ closing).mapM translate

def evaluation (i : Nat) : String × List Shape :=
  match i % 5 with
  | 0 => ("A[i, j], B[j, k] -> [i, k]", [[2, 3], [3, 4]])
  | 1 => ("A[i, j] ->", [[2, 3]])
  | 2 => ("A[i, j] -> [j, i]", [[2, 4]])
  | 3 => ("A[i, j], B[k, l] -> [i * k, j * l]", [[2, 3], [2, 3]])
  | _ => ("A[i, j] -> [i, j]", [[3, 4]])

def resultShapes (n : Nat) : Except ExprError (List Shape) :=
  (List.range n).mapM fun i => do
    let (s, shapes) := evaluation i
    return (← einsum s (shapes.map fun d => Tensor.counting d 1)).shape

def fastSums (n : Nat) : Except ExprError (List Int) :=
  (List.range n).mapM fun _ => do
    return (← einsumFast "A[i] ->" [Tensor.counting [3] 1]).data.foldl (· + ·) 0

def checked (i : Nat) : String × List Shape :=
  match i % 4 with
  | 0 => ("A[i, j], B[j, k] -> [i, k]", [[3, 4], [4, 2]])
  | 1 => ("A[i, j, k], B[i, j, r] -> [k, r]", [[2, 3, 4], [2, 3, 2]])
  | 2 => ("A[i, ..., j] -> [i, j]", [[2, 3, 4, 2]])
  | _ => ("A[i, j] -> [i, j]", [[5, 5]])

def checkedShapes (n : Nat) : Except ExprError (List (List Shape)) :=
  (List.range n).mapM fun i => do
    let (s, shapes) := checked i
    Shape.check (← Spec.parse s).inputs shapes

def joined (i : Nat) : String × Shape :=
  match i % 5 with
  | 0 => ("A[i, j, k] ->", [])
  | 1 => ("A[i, j] -> [i, j]", [3, 4])
  | 2 => ("A[i, j], B[k, l] -> [i * k, j * l]", [3, 5, 4, 6])
  | 3 => ("A[i, ..., j] -> [i, ..., j]", [2, 3, 4, 5, 2])
  | _ => ("A[i, ..., j] -> [...]", [3, 4, 5])

def joinedShapes (n : Nat) : Except ExprError (List (Shape × String)) :=
  (List.range n).mapM fun i => do
    let (s, shape) := joined i
    let spec ← Spec.parse s
    return (← spec.outputShape shape, (← spec.compile).text)

end AxisLang.Workload
