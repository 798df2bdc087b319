import AxisLang.Text.Basic

/-! Counting characters and lines while reading. -/
namespace AxisLang

/-- How often `part` occurs in a text, occurrences not overlapping; `skip` characters are passed
over first. -/
def countPart (part : List Char) : Nat → List Char → Nat
  | _, [] => if part.isEmpty then 1 else 0
  | 0, c :: cs =>
    if part.isPrefixOf (c :: cs) then 1 + countPart part (part.length - 1) cs
    else countPart part 0 cs
  | skip + 1, _ :: cs => countPart part skip cs

def lastPart? (part : List Char) : List Char → Option Nat
  | [] => if part.isEmpty then some 0 else none
  | c :: cs =>
    match lastPart? part cs with
    | some i => some (i + 1)
    | none => if part.isPrefixOf (c :: cs) then some 0 else none

structure Cursor where
  pos : Nat := 0
  line : Nat := 1
  lineStart : Nat := 0
deriving DecidableEq, Repr, Inhabited

namespace Cursor

def column (c : Cursor) : Int :=
  c.pos - c.lineStart + 1

/-- The cursor after reading `s`. Lines end at `newline`; with `test` unset the text is known to
hold no line end. -/
def feed (newline : List Char) (test : Bool) (s : List Char) (c : Cursor) : Cursor :=
  let lines := if test then countPart newline 0 s else 0
  if lines = 0 then { c with pos := c.pos + s.length }
  else
    { pos := c.pos + s.length
      line := c.line + lines
      lineStart := c.pos + (lastPart? newline s).getD 0 + 1 }

theorem feed_pos (newline : List Char) (test : Bool) (s : List Char) (c : Cursor) :
    (c.feed newline test s).pos = c.pos + s.length := by
  simp only [feed]
  repeat' split
  all_goals rfl

end Cursor

end AxisLang
