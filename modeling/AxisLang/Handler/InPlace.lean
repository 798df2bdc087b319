import AxisLang.Handler.Transform
import AxisLang.Tree.Revision
import AxisLang.Tree.Subtrees

/-! Transforming a tree in place: the results of children replace them in the tree itself. -/
namespace AxisLang

/-- A computation that may change trees in place and may fail; changes made before a failure stay. -/
abbrev Edit := ExceptT Error (StateM Revisions)

namespace Edit

def ofResult {α : Type} (r : Except Error α) : Edit α :=
  ExceptT.mk (pure r)

def look (v : Value) : Edit Value := do
  return (← get).current v

def lookThrough (v : Value) : Edit Value := do
  return (← get).now v

def adopt (v : Value) : Edit Value :=
  modifyGet fun r =>
    let (v, fresh) := v.identified r.fresh
    (v, { r with fresh })

def setChildren (v : Value) (children : List Value) : Edit Unit :=
  match v with
  | .tree (some i) l _ s => modify fun r => r.put i l children s
  | _ => pure ()

/-- Runs the edits on a value that gets identities first; the result and the value are given as they
are at the end. -/
def runOn (v : Value) (f : Value → Edit Value) : Except Error Value × Value :=
  let (v, fresh) := v.identified v.idBound
  let (result, r) := (f v).run { fresh }
  (result.map r.now, r.now v)

end Edit

namespace Transformer

def callNow (t : Transformer) (v : Value) : Edit Value := do
  match ← Edit.look v with
  | .tree _ l cs s => Edit.ofResult (t.callNode l cs s)
  | v => return v

def editResults (t : Transformer) (f : Value → Edit Value) : List Value → Edit (List Value)
  | [] => return []
  | v :: vs => do
    let r ←
      match v with
      | .tree .. => f v
      | .token tok => Edit.ofResult (t.callToken tok)
      | v => pure v
    return keepResult r (← t.editResults f vs)

/-- Replaces the children of each of the given nodes by their results, which are known once the
children's own children are done. -/
def editAll (t : Transformer) : List Value → Edit Unit
  | [] => return ()
  | v :: vs => do
    let now ← Edit.look v
    let items ← t.editResults t.callNow now.children
    Edit.setChildren now items
    t.editAll vs

/-- The method that goes through all subtrees, each after its descendants. -/
def inPlace (t : Transformer) (v : Value) : Edit Value := do
  let whole ← Edit.lookThrough v
  t.editAll whole.subtrees
  t.callNow v

def inPlaceDown (t : Transformer) : Nat → Value → Edit Value
  | 0, _ => throw (.fault .endless "")
  | depth + 1, v => do
    let now ← Edit.look v
    let items ← t.editResults (t.inPlaceDown depth) now.children
    Edit.setChildren (← Edit.look v) items
    t.callNow v

def apply (t : Transformer) (v : Value) : Edit Value :=
  match t.strategy with
  | .stacked => do throw (t.stacked (← Edit.lookThrough v))
  | strategy =>
    if v.isTree then
      match strategy with
      | .inPlace => do t.inPlace (← Edit.adopt v)
      | .inPlaceRecursive => do
        let v ← Edit.adopt v
        let whole ← Edit.lookThrough v
        t.inPlaceDown (2 * whole.size + 2) v
      | _ => do Edit.ofResult (t.resultOf (← Edit.lookThrough v))
    else throw (.fault .attribute "")

end Transformer

namespace Transformation

def applyAll : List Transformer → Value → Edit Value
  | [], v => return v
  | t :: ts, v => do applyAll ts (← t.apply v)

def apply : Transformation → Value → Edit Value
  | .single t, v => t.apply v
  | .chain ts, v => do
    let _ ← applyAll ts v
    throw (.fault .undefinedName "")

def run (t : Transformation) (v : Value) : Except Error Value × Value :=
  Edit.runOn v t.apply

end Transformation

end AxisLang
