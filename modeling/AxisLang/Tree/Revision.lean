import AxisLang.Tree.Value

/-! Trees that change in place. A tree's identity names an object; revisions record what that object
holds now, so that every place that refers to it sees the change. -/
namespace AxisLang

structure Contents where
  label : Label
  children : List Value
  span : Span
deriving Repr, Inhabited

structure Revisions where
  changed : List (Nat × Contents) := []
  fresh : Nat := 0
deriving Repr, Inhabited

namespace Value

mutual

/-- The value with an identity for every tree that has none, numbered from `n` on; also the first
number not used. -/
def identified (n : Nat) : Value → Value × Nat
  | .tree (some i) l cs s =>
    let (cs, n) := identifiedAll n cs
    (.tree (some i) l cs s, n)
  | .tree none l cs s =>
    let (cs, m) := identifiedAll (n + 1) cs
    (.tree (some n) l cs s, m)
  | .list xs =>
    let (xs, n) := identifiedAll n xs
    (.list xs, n)
  | v => (v, n)

def identifiedAll (n : Nat) : List Value → List Value × Nat
  | [] => ([], n)
  | v :: vs =>
    let (v, n) := identified n v
    let (vs, n) := identifiedAll n vs
    (v :: vs, n)

end

mutual

def idBound : Value → Nat
  | .tree i _ cs _ => max (i.elim 0 (· + 1)) (idBoundAll cs)
  | .list xs => idBoundAll xs
  | _ => 0

def idBoundAll : List Value → Nat
  | [] => 0
  | v :: vs => max (idBound v) (idBoundAll vs)

end

end Value

namespace Revisions

def current (r : Revisions) : Value → Value
  | .tree (some i) l cs s =>
    match r.changed.lookup i with
    | some c => .tree (some i) c.label c.children c.span
    | none => .tree (some i) l cs s
  | v => v

/-- Records new contents of a tree object. Trees among the children get identities. -/
def put (r : Revisions) (id : Nat) (label : Label) (children : List Value) (span : Span) :
    Revisions :=
  let (children, fresh) := Value.identifiedAll r.fresh children
  { changed := (id, ⟨label, children, span⟩) :: r.changed, fresh }

/-- The value as it is now, on all levels down to the given depth. -/
def settle (r : Revisions) : Nat → Value → Value
  | 0, v => v
  | depth + 1, v =>
    match r.current v with
    | .tree i l cs s => .tree i l (cs.map (r.settle depth)) s
    | .list xs => .list (xs.map (r.settle depth))
    | v => v

/-- The value as it is now. No path through it is longer than the identities and values there
are. -/
def now (r : Revisions) (v : Value) : Value :=
  r.settle (r.fresh + v.size + 1) v

end Revisions

end AxisLang
