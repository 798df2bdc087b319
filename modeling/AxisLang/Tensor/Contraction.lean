import AxisLang.Expression.Compile
import AxisLang.Tensor.Basic

/-! Contraction: what a compiled expression computes from arrays. Each letter is an index; an element
of the result is the sum, over all values of the letters that the output lacks, of the products of
the elements that the inputs have there. -/
namespace AxisLang

/-- An index of a contraction: that of a letter, or a dimension that an ellipsis stands for, counted
from the right. -/
inductive Dim where
  | letter (s : String)
  | spare (k : Nat)
deriving DecidableEq, Repr, Inhabited

structure Operand where
  dims : List Dim
  tensor : Tensor
deriving Repr, Inhabited

namespace Contraction

def restCount (ss : List Subscript) : Nat :=
  ss.count .rest

def expand (spares : Nat) (ss : List Subscript) : List Dim :=
  ss.flatMap fun s =>
    match s with
    | .letter l => [.letter l]
    | .rest => (List.range spares).reverse.map .spare

/-- How many dimensions the ellipsis of a term stands for, on an array of the given rank. There must
be a letter for each dimension unless there is an ellipsis. -/
def sparesOf? (ss : List Subscript) (rank : Nat) : Option Nat :=
  let letters := ss.length - restCount ss
  match restCount ss with
  | 0 => if rank = letters then some 0 else none
  | 1 => if letters ≤ rank then some (rank - letters) else none
  | _ => none

/-- Whether dimensions of one operand under the same index, which are read along their diagonal, have the
same size. A one is not stretched here. -/
def isDiagonal (o : Operand) : Bool :=
  (o.dims.zip o.tensor.shape).all fun d =>
    (o.dims.zip o.tensor.shape).all fun e => d.1 ≠ e.1 || d.2 == e.2

/-- The common size of two dimensions under one index: equal sizes, or a one that is stretched. -/
def joinSize? (a b : Nat) : Option Nat :=
  if a = b then some a else if a = 1 then some b else if b = 1 then some a else none

def addSize? (sizes : List (Dim × Nat)) (d : Dim × Nat) : Option (List (Dim × Nat)) :=
  match sizes.lookup d.1 with
  | none => some (sizes ++ [d])
  | some n =>
    (joinSize? n d.2).map fun m => sizes.map fun e => if e.1 = d.1 then (e.1, m) else e

def sizes? (ops : List Operand) : Option (List (Dim × Nat)) :=
  (ops.flatMap fun o => o.dims.zip o.tensor.shape).foldlM addSize? []

def allDistinct : List Dim → Bool
  | [] => true
  | d :: ds => !ds.contains d && allDistinct ds

/-- The indices of the output. They are distinct, all occur in the inputs, and spare dimensions of
the inputs need an ellipsis. -/
def outputDims? (out : List Subscript) (spares : Nat) (sizes : List (Dim × Nat)) :
    Option (List Dim) :=
  if 1 < restCount out || (0 < spares && restCount out = 0) then none
  else
    let dims := expand spares out
    if allDistinct dims && dims.all fun d => (sizes.lookup d).isSome then some dims else none

/-- Where the values of an operand's indices stand in the list of all indices; none for a dimension
of size one, which is always read at zero. -/
def places (all : List Dim) (o : Operand) : List (Option Nat) :=
  (o.dims.zip o.tensor.shape).map fun (d, n) => if n = 1 then none else some (all.idxOf d)

def project (places : List (Option Nat)) (values : List Nat) : List Nat :=
  places.map fun p =>
    match p with
    | none => 0
    | some i => values.getD i 0

def term (ops : List (List (Option Nat) × Tensor)) (values : List Nat) : Int :=
  ops.foldl (fun acc (ps, t) => word (acc * t.get (project ps values))) 1

def total (ops : List (List (Option Nat) × Tensor)) (out : List Nat) (rest : List (List Nat)) :
    Int :=
  rest.foldl (fun acc r => word (acc + term ops (out ++ r))) 0

def evaluate (ops : List Operand) (sizes : List (Dim × Nat)) (out : List Dim) : Tensor :=
  let summed := (sizes.map (·.1)).filter fun d => !out.contains d
  let all := out ++ summed
  let sizeOf := fun d => (sizes.lookup d).getD 0
  let ready := ops.map fun o => (places all o, o.tensor)
  let rest := indices (summed.map sizeOf)
  Tensor.ofFn (out.map sizeOf) fun i => total ready i rest

def operands? : List (List Subscript) → List Tensor → Option (List Operand × Nat)
  | [], [] => some ([], 0)
  | ss :: terms, t :: ts => do
    let spares ← sparesOf? ss t.rank
    let (ops, most) ← operands? terms ts
    return (⟨expand spares ss, t⟩ :: ops, max spares most)
  | _, _ => none

def contract? (c : Compiled) (ts : List Tensor) : Option Tensor := do
  if ts.isEmpty then none
  let (ops, spares) ← operands? c.inputs ts
  if !ops.all isDiagonal then none
  let sizes ← sizes? ops
  let out ← outputDims? c.output spares sizes
  return evaluate ops sizes out

end Contraction

end AxisLang
