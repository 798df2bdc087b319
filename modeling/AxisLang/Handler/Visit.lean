import AxisLang.Handler.InPlace

/-! Visiting the nodes of a tree. A visitor calls a handler at each node; the handler may change the node, but
gives no result. -/
namespace AxisLang

/-- What a handler does at a node: the lines it writes, the contents that it leaves in the node if it changes
it, and the error that it ends with if it fails. -/
structure VisitEffect where
  lines : List String := []
  leaves : Option Contents := none
  failure : Option Error := none
deriving Repr, Inhabited

abbrev VisitHandler := Contents → VisitEffect

inductive VisitOrder where
  | walk
  | walkTopDown
  | bottomUp
  | topDown
deriving DecidableEq, Repr, Inhabited

structure Visitor where
  handlers : List (String × VisitHandler) := []
  fallback : VisitHandler := fun _ => {}

structure VisitState where
  revisions : Revisions := {}
  log : List String := []
deriving Repr, Inhabited

/-- A visit; changes and lines made before a failure stay. -/
abbrev Visit := ExceptT Error (StateM VisitState)

namespace Visit

def look (v : Value) : Visit Value := do
  return (← get).revisions.current v

def note (lines : List String) : Visit Unit :=
  modify fun s => { s with log := lines.reverse ++ s.log }

def put (id : Option Nat) (c : Contents) : Visit Unit :=
  match id with
  | some i => modify fun st => { st with revisions := st.revisions.put i c.label c.children c.span }
  | none => pure ()

def perform (id : Option Nat) (e : VisitEffect) : Visit Unit := do
  note e.lines
  e.leaves.elim (pure ()) (put id)
  e.failure.elim (pure ()) throw

end Visit

namespace Visitor

def effect (w : Visitor) (c : Contents) : VisitEffect :=
  (w.handlers.lookup c.label.name).getD w.fallback c

def atNode (w : Visitor) (v : Value) : Visit Unit := do
  match ← Visit.look v with
  | .tree id l cs s => Visit.perform id (w.effect ⟨l, cs, s⟩)
  | _ => pure ()

def atAll (f : Value → Visit Unit) : List Value → Visit Unit
  | [] => pure ()
  | v :: vs => do
    f v
    atAll f vs

def bottomUp (w : Visitor) : Nat → Value → Visit Unit
  | 0, _ => throw (.fault .endless "")
  | depth + 1, v => do
    let now ← Visit.look v
    atAll (w.bottomUp depth) (now.children.filter Value.isTree)
    w.atNode v

/-- Visits a node before its children, which may be new ones then; `depth` bounds how deep. -/
def topDown (w : Visitor) : Nat → Value → Visit Unit
  | 0, _ => throw (.fault .endless "")
  | depth + 1, v => do
    w.atNode v
    let now ← Visit.look v
    atAll (w.topDown depth) (now.children.filter Value.isTree)

def visit (w : Visitor) (order : VisitOrder) (v : Value) : Visit Unit :=
  match order with
  | .walk => atAll w.atNode v.subtrees
  -- the walk from the top is not provided for
  | .walkTopDown => throw (.fault .attribute "")
  | .bottomUp => w.bottomUp (v.size + 2) v
  | .topDown => w.topDown (v.size + 2) v

structure Outcome where
  result : Except Error Unit
  log : List String
  after : Value

def run (w : Visitor) (order : VisitOrder) (v : Value) : Outcome :=
  let (v, fresh) := v.identified v.idBound
  let (result, st) := (w.visit order v).run { revisions := { fresh } }
  ⟨result, st.log.reverse, st.revisions.now v⟩

end Visitor

end AxisLang
