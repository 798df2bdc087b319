import AxisLang.Token

/-! Parse results. A value is a tree, a token or a plain datum. A tree has a label, children and a
span that tells which part of the source it covers. -/
namespace AxisLang

structure Label where
  name : String
  ofRule : Bool := false
deriving DecidableEq, Repr, Inhabited

/-- The source positions recorded for a tree. Each entry may be absent, and an entry that is present
may still be unknown. The outer entries cover punctuation that the tree dropped. -/
structure Span where
  empty : Bool := true
  line : Option (Option Int) := none
  column : Option (Option Int) := none
  start : Option (Option Int) := none
  endLine : Option (Option Int) := none
  endColumn : Option (Option Int) := none
  stop : Option (Option Int) := none
  outerLine : Option (Option Int) := none
  outerColumn : Option (Option Int) := none
  outerStart : Option (Option Int) := none
  outerEndLine : Option (Option Int) := none
  outerEndColumn : Option (Option Int) := none
  outerStop : Option (Option Int) := none
deriving DecidableEq, Repr, Inhabited

/-- A value held by a tree or passed between handlers. A tree may carry an identity: two trees with
one identity are one object, a tree without identity is an object of its own. `discard` asks the
parent to drop the value. -/
inductive Value where
  | null
  | bool (b : Bool)
  | int (n : Int)
  | str (s : String)
  | token (t : Token)
  | tree (id : Option Nat) (label : Label) (children : List Value) (span : Span)
  | list (items : List Value)
  | discard
deriving Repr, Inhabited

namespace Value

def node (name : String) (children : List Value) : Value :=
  .tree none ⟨name, false⟩ children {}

def isTree : Value → Bool
  | .tree .. => true
  | _ => false

def isDiscard : Value → Bool
  | .discard => true
  | _ => false

def label? : Value → Option Label
  | .tree _ l _ _ => some l
  | _ => none

def children : Value → List Value
  | .tree _ _ cs _ => cs
  | _ => []

def id? : Value → Option Nat
  | .tree i _ _ _ => i
  | _ => none

mutual

def size : Value → Nat
  | .tree _ _ cs _ => 1 + sizeAll cs
  | .list xs => 1 + sizeAll xs
  | _ => 1

def sizeAll : List Value → Nat
  | [] => 0
  | v :: vs => size v + sizeAll vs

end

mutual

/-- Equality of values. Trees are equal when their labels and children are; their spans and
identities do not count. A token equals a plain text of the same characters, two tokens also need
the same kind, and the truth values equal one and zero. -/
def same : Value → Value → Bool
  | .null, .null => true
  | .discard, .discard => true
  | .bool a, .bool b => a == b
  | .bool a, .int n => (if a then 1 else 0) == n
  | .int n, .bool b => n == (if b then 1 else 0)
  | .int m, .int n => m == n
  | .str a, .str b => a == b
  | .str a, .token t => a.toList == t.content
  | .token t, .str b => t.content == b.toList
  | .token a, .token b => a.same b
  | .tree _ l cs _, .tree _ m ds _ => l.name == m.name && sameAll cs ds
  | .list xs, .list ys => sameAll xs ys
  | _, _ => false

def sameAll : List Value → List Value → Bool
  | [], [] => true
  | v :: vs, w :: ws => same v w && sameAll vs ws
  | _, _ => false

end

mutual

def isKey : Value → Bool
  | .list _ => false
  | .tree _ _ cs _ => allKeys cs
  | _ => true

def allKeys : List Value → Bool
  | [] => true
  | v :: vs => isKey v && allKeys vs

end

end Value

end AxisLang
