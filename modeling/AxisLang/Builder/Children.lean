import AxisLang.Error
import AxisLang.Grammar.Rule

/-! Which children a tree keeps. Filtered tokens are left out, the children of an inlined symbol take
its place, and a placeholder stands for each optional part that is missing. -/
namespace AxisLang

/-- One kept child: `nulls` placeholders go before it, and with `expand` its own children take its
place. -/
structure Pick where
  index : Nat
  expand : Bool
  nulls : Nat
deriving DecidableEq, Repr, Inhabited

/-- The kept children of a rule, and the placeholders after them. With `shares` set, a list that
starts with the children of an inlined node is that node's own list. -/
structure Selection where
  picks : List Pick
  nullsAfter : Nat
  shares : Bool
deriving DecidableEq, Repr, Inhabited

namespace Selection

def gapLengths : List Bool → List Nat
  | [] => [0]
  | false :: bs => 0 :: gapLengths bs
  | true :: bs =>
    match gapLengths bs with
    | n :: ns => (n + 1) :: ns
    | [] => [1]

/-- The kept symbols; `i` is the number of the first symbol of the list and `waiting` counts the
placeholders that still have to be put before a kept one. -/
def plan (keepAll : Bool) : Nat → Nat → List Nat → List Symbol → List Pick × Nat
  | _, waiting, gaps, [] => ([], waiting + gaps.headD 0)
  | i, waiting, gaps, s :: ss =>
    let waiting := waiting + gaps.headD 0
    if keepAll || !s.isFiltered then
      let (picks, after) := plan keepAll (i + 1) 0 (gaps.drop 1) ss
      (⟨i, s.isInlined, waiting⟩ :: picks, after)
    else plan keepAll (i + 1) waiting (gaps.drop 1) ss

def ofRule? (expansion : List Symbol) (keepAll ambiguous : Bool) (gaps : List Bool) :
    Except Error (Option Selection) :=
  if !gaps.isEmpty && gaps.count false != expansion.length then .error (.fault .assertion "")
  else
    let lengths := if gaps.isEmpty then [] else gapLengths gaps
    let (picks, after) := plan keepAll 0 0 lengths expansion
    if !gaps.isEmpty || picks.length < expansion.length || picks.any (·.expand) then
      .ok (some ⟨picks, after, !ambiguous⟩)
    else .ok none

structure Gathered where
  items : List Value := []
  owner : Option Nat := none

def gatherOne (shares : Bool) (children : List Value) (g : Gathered) (p : Pick) :
    Except Error Gathered :=
  let g := { g with items := g.items ++ List.replicate p.nulls Value.null }
  match children[p.index]? with
  | none => .error (.fault .index "list index out of range")
  | some c =>
    if p.expand then
      match c with
      | .tree id _ cs _ =>
        if shares && g.items.isEmpty then
          .ok ⟨if id.isSome && id == g.owner then g.items else cs, id⟩
        else if id.isSome && id == g.owner then .ok { g with items := g.items ++ g.items }
        else .ok { g with items := g.items ++ cs }
      | _ => .error (.fault .attribute "")
    else .ok { g with items := g.items ++ [c] }

def gather (s : Selection) (children : List Value) : Except Error (List Value) := do
  let g ← s.picks.foldlM (gatherOne s.shares children) {}
  return g.items ++ List.replicate s.nullsAfter Value.null

end Selection

end AxisLang
