import AxisLang.Tree.Value

/-! The subtrees of a tree, each once, every one after all its descendants. -/
namespace AxisLang

namespace Value

def seenIn (seen : List Value) (v : Value) : Bool :=
  match v.id? with
  | none => false
  | some i => seen.any fun w => w.id? == some i

def treesBackwards (v : Value) : List Value :=
  v.children.reverse.filter isTree

/-- Walks the waiting trees level by level. `found` holds the trees reached so far, the latest first;
each tree adds its children that are not found yet to the end of the waiting list. -/
def walkLevels : Nat → List Value → List Value → List Value
  | 0, found, _ => found
  | _ + 1, found, [] => found
  | fuel + 1, found, v :: waiting =>
    let found := if seenIn found v then found else v :: found
    walkLevels fuel found (waiting ++ v.treesBackwards.filter fun c => !seenIn found c)

/-- The subtrees, the tree itself last. The walk takes each tree at most once for every place it
stands at, so the size of the tree bounds it. -/
def subtrees (v : Value) : List Value :=
  walkLevels (v.size + 1) [] [v]

end Value

end AxisLang
