/-! Arrays of 64-bit integers with a shape, stored row by row. -/
namespace AxisLang

abbrev Shape := List Nat

def volume (s : Shape) : Nat :=
  s.foldr (· * ·) 1

@[simp] theorem volume_nil : volume [] = 1 := rfl

@[simp] theorem volume_cons (n : Nat) (s : Shape) : volume (n :: s) = n * volume s := rfl

theorem volume_append (s t : Shape) : volume (s ++ t) = volume s * volume t := by
  induction s with
  | nil => simp
  | cons n s ih => simp [ih, Nat.mul_assoc]

/-- An integer brought into 64 bits, wrapping around. -/
def word (n : Int) : Int :=
  n.bmod UInt64.size

structure Tensor where
  shape : Shape
  data : Array Int
deriving DecidableEq, Repr, Inhabited

/-- All indices of a shape, the last dimension running fastest. -/
def indices : Shape → List (List Nat)
  | [] => [[]]
  | n :: s => (List.range n).flatMap fun i => (indices s).map (i :: ·)

def flatIndex : Shape → List Nat → Nat
  | _ :: s, i :: is => i * volume s + flatIndex s is
  | _, _ => 0

theorem length_indices (s : Shape) : (indices s).length = volume s := by
  induction s with
  | nil => rfl
  | cons n s ih =>
    rw [indices, List.length_flatMap, volume_cons]
    simp only [List.length_map, ih, List.map_const', List.length_range, List.sum_replicate_nat]

namespace Tensor

def rank (t : Tensor) : Nat := t.shape.length

def get (t : Tensor) (i : List Nat) : Int :=
  t.data.getD (flatIndex t.shape i) 0

def ofFn (s : Shape) (f : List Nat → Int) : Tensor :=
  ⟨s, ((indices s).map f).toArray⟩

def counting (s : Shape) (start : Int) : Tensor :=
  ⟨s, ((List.range (volume s)).map fun (i : Nat) => word (start + i)).toArray⟩

def reshape? (t : Tensor) (s : Shape) : Option Tensor :=
  if volume s = volume t.shape then some ⟨s, t.data⟩ else none

end Tensor

end AxisLang
