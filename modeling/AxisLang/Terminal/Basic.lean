import AxisLang.Terminal.Pattern
import AxisLang.Text.Identifier

/-! Terminals: named patterns with a priority, and the order in which a lexer tries them. -/
namespace AxisLang

structure Terminal where
  name : String
  pattern : Pattern
  priority : Int := 0
deriving DecidableEq, Repr, Inhabited

namespace Terminal

def written (t : Terminal) : String :=
  "TerminalDef(" ++ quote t.name ++ ", " ++ t.pattern.written ++ ")"

def isAnonymous (t : Terminal) : Bool :=
  t.name.startsWith "__"

/-- Whether name and pattern can be written in bytes. -/
def isLatin (t : Terminal) : Bool :=
  t.name.toList.all (fun c => c.toNat < 256) && t.pattern.isLatin

/-- The name shown to users: a made-up name gives way to the pattern's spelling. There is no answer
when that spelling is not on record. -/
def userName? (t : Terminal) : Option String :=
  if t.isAnonymous then
    match t.pattern.spelling with
    | .unrecorded => none
    | .recorded none => some t.name
    | .recorded (some s) => some (if s = "" then t.name else s)
  else some t.name

/-- The key by which a lexer orders terminals: higher priority first, then greater width, then longer
pattern, then name. -/
structure Rank where
  priority : Int
  width : Nat
  length : Nat
  name : String
deriving DecidableEq, Repr

def Rank.before (a b : Rank) : Bool :=
  if a.priority ≠ b.priority then b.priority < a.priority
  else if a.width ≠ b.width then b.width < a.width
  else if a.length ≠ b.length then b.length < a.length
  else a.name < b.name

def rank (t : Terminal) : Except WidthFault Rank := do
  let w ← t.pattern.width
  return ⟨t.priority, w.2, t.pattern.value.length, t.name⟩

def insertByRank (x : Rank × Terminal) : List (Rank × Terminal) → List (Rank × Terminal)
  | [] => [x]
  | y :: ys => if x.1.before y.1 then x :: y :: ys else y :: insertByRank x ys

def sorted (ts : List Terminal) : Except WidthFault (List Terminal) := do
  let ranked ← ts.mapM fun t => return (← t.rank, t)
  return (ranked.foldl (fun acc x => insertByRank x acc) []).map (·.2)

end Terminal

end AxisLang
