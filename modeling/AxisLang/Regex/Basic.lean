import AxisLang.Regex.Class

/-! Regular expressions with ordered choice: alternatives are tried from left to right, a greedy
repetition tries to go on before it stops, and the first way to match wins. -/
namespace AxisLang

inductive Regex where
  | empty
  | one (k : CharClass)
  | seq (a b : Regex)
  | alt (a b : Regex)
  | rep (body : Regex) (least : Nat) (most : Option Nat) (greedy : Bool)
deriving DecidableEq, Repr, Inhabited

namespace Regex

/-- What to do after a match: it is given the rest of the text and the number of characters
matched so far. -/
abbrev Goal := List Char → Nat → Option Nat

abbrev Step := List Char → Nat → Goal → Option Nat

def times (step : Step) : Nat → Step
  | 0, s, n, k => k s n
  | m + 1, s, n, k => step s n fun s' n' => times step m s' n' k

/-- The step as often as it takes, `most` times if that is given. A round that matches nothing ends
the repetition. `fuel` bounds the rounds that match something. -/
def loop (step : Step) (greedy : Bool) : Nat → Option Nat → Step
  | 0, _, s, n, k => k s n
  | fuel + 1, most, s, n, k =>
    if most = some 0 then k s n
    else
      let more := step s n fun s' n' =>
        if n' = n then k s' n' else loop step greedy fuel (most.map (· - 1)) s' n' k
      if greedy then
        match more with
        | some r => some r
        | none => k s n
      else
        match k s n with
        | some r => some r
        | none => more

/-- Matches at the front of a text and goes on to the goal; backtracks while the goal fails. -/
def run : Regex → Step
  | .empty, s, n, k => k s n
  | .one c, s, n, k =>
    match s with
    | [] => none
    | d :: s => if c.test d then k s (n + 1) else none
  | .seq a b, s, n, k => a.run s n fun s' n' => b.run s' n' k
  | .alt a b, s, n, k =>
    match a.run s n k with
    | some r => some r
    | none => b.run s n k
  | .rep body least most greedy, s, n, k =>
    times (fun s n k => body.run s n k) least s n fun s' n' =>
      loop (fun s n k => body.run s n k) greedy s'.length (most.map (· - least)) s' n' k

def matchLength? (r : Regex) (s : List Char) : Option Nat :=
  r.run s 0 fun _ n => some n

def unbounded : Nat := 4294967295

def widths : Regex → Nat × Nat
  | .empty => (0, 0)
  | .one _ => (1, 1)
  | .seq a b => (a.widths.1 + b.widths.1, a.widths.2 + b.widths.2)
  | .alt a b => (min a.widths.1 b.widths.1, max a.widths.2 b.widths.2)
  | .rep body least most _ => (body.widths.1 * least, body.widths.2 * most.getD unbounded)

/-- The widths with caps: a greatest width at the cap means that there is no bound. -/
def width (r : Regex) : Nat × Nat :=
  (min r.widths.1 (unbounded - 1), min r.widths.2 unbounded)

def concat : List Regex → Regex
  | [] => .empty
  | [r] => r
  | r :: rs => .seq r (concat rs)

end Regex

end AxisLang
