import AxisLang.Grammar.Rule

/-! Parse tables: for each state and symbol, what to do. -/
namespace AxisLang

inductive Action where
  | shift (state : Nat)
  | reduce (rule : Rule)
deriving DecidableEq, Repr, Inhabited

abbrev Row := List (String × Action)

structure Table where
  rows : List (Nat × Row)
  starts : List (String × Nat)
  ends : List (String × Nat)
deriving DecidableEq, Repr, Inhabited

/-- Whether a name is written in capitals, as names of terminals are: it has an upper-case letter
and no lower-case one. -/
def isCapital (s : String) : Bool :=
  s.toList.any Char.isUpper && !s.toList.any Char.isLower

namespace Table

def row? (t : Table) (state : Nat) : Option Row :=
  t.rows.lookup state

def accepts (t : Table) : List (Nat × List String) :=
  t.rows.map fun (state, row) => (state, row.map (·.1))

end Table

/-- A table whose states go by names of type `σ`, and whose reductions carry values of type `α`. -/
structure NamedTable (σ α : Type) where
  rows : List (σ × List (String × (σ ⊕ α)))
  starts : List (String × σ)
  ends : List (String × σ)
deriving Repr

namespace NamedTable

variable {σ α : Type} [BEq σ]

def number? (t : NamedTable σ α) (name : σ) : Option Nat :=
  t.rows.findIdx? fun row => row.1 == name

/-- The table with states numbered in the order of the rows. There is none if a state is missing. -/
def numbered? (t : NamedTable σ α) : Option (NamedTable Nat α) := do
  let rows ← t.rows.mapM fun (name, row) => do
    let row ← row.mapM fun (symbol, act) =>
      match act with
      | .inl state => (t.number? state).map fun n => (symbol, .inl n)
      | .inr a => some (symbol, .inr a)
    return (← t.number? name, row)
  let starts ← t.starts.mapM fun (rule, name) => return (rule, ← t.number? name)
  let ends ← t.ends.mapM fun (rule, name) => return (rule, ← t.number? name)
  return ⟨rows, starts, ends⟩

end NamedTable

end AxisLang
