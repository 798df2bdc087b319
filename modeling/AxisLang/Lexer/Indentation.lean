import AxisLang.Lexer.Basic
import AxisLang.Text.Columns

/-! Blocks by indentation. A filter on tokens: after each line end outside of brackets it adds a
token where the indentation grows, and one for each block that a smaller indentation closes. -/
namespace AxisLang

structure IndentRules where
  newline : String
  opens : List String
  closes : List String
  indent : String
  dedent : String
  tabWidth : Int
deriving DecidableEq, Repr, Inhabited

structure IndentState where
  depth : Int := 0
  levels : List Int := [0]
deriving DecidableEq, Repr, Inhabited

/-- The state in which a run starts: outside of brackets with no block open, whatever was left
behind. -/
def IndentState.reset (s : IndentState) : IndentState :=
  { s with depth := 0, levels := [0] }

/-- What the filter yields for a token: tokens to pass on, then perhaps an error; the state is the
one left behind. -/
structure Indented where
  tokens : List Token
  error : Option Error := none
  state : IndentState
deriving Repr, Inhabited

namespace IndentRules

def standard : IndentRules where
  newline := "_NEWLINE"
  opens := ["LPAR", "LSQB", "LBRACE"]
  closes := ["RPAR", "RSQB", "RBRACE"]
  indent := "_INDENT"
  dedent := "_DEDENT"
  tabWidth := 8

def usable (r : IndentRules) : Bool :=
  0 < r.tabWidth

def columnOf (r : IndentRules) (cs : List Char) : Int :=
  cs.count ' ' + cs.count '\t' * r.tabWidth

/-- Closes blocks until the innermost one is not indented further than `column`. -/
def closeBlocks (column : Int) : List Int → Nat × List Int
  | [] => (0, [])
  | level :: levels =>
    if column < level then
      let (n, rest) := closeBlocks column levels
      (n + 1, rest)
    else (0, level :: levels)

def atNewline (r : IndentRules) (s : IndentState) (t : Token) : Indented :=
  if 0 < s.depth then ⟨[], none, s⟩
  else if !t.content.contains '\n' then ⟨[t], some (.fault .index "list index out of range"), s⟩
  else
    let blanks := lastLine t.content
    let text : Text := ⟨blanks, false⟩
    let column := r.columnOf blanks
    match s.levels with
    | [] => ⟨[t], some (.fault .index "list index out of range"), s⟩
    | level :: levels =>
      if level < column then
        ⟨[t, Token.borrow r.indent text t], none, { s with levels := column :: level :: levels }⟩
      else
        let (n, open_) := closeBlocks column (level :: levels)
        let tokens := t :: List.replicate n (Token.borrow r.dedent text t)
        match open_ with
        | [] => ⟨tokens, some (.fault .index "list index out of range"), { s with levels := [] }⟩
        | top :: _ =>
          ⟨tokens, if column = top then none else some (.dedent column top),
            { s with levels := open_ }⟩

def atBracket (r : IndentRules) (t : Token) (x : Indented) : Indented :=
  if x.error.isSome then x
  else if r.opens.contains t.kind then
    { x with state := { x.state with depth := x.state.depth + 1 } }
  else if r.closes.contains t.kind then
    let state := { x.state with depth := x.state.depth - 1 }
    { x with state, error := if state.depth < 0 then some (.fault .assertion "") else none }
  else x

def step (r : IndentRules) (s : IndentState) (t : Token) : Indented :=
  r.atBracket t (if t.kind = r.newline then r.atNewline s t else ⟨[t], none, s⟩)

def finish (r : IndentRules) (s : IndentState) : Indented :=
  let n := s.levels.length - 1
  let bottom := s.levels.drop n
  { tokens := List.replicate n { kind := r.dedent, text := ⟨[], false⟩ }
    error := if bottom = [0] then none else some (.fault .assertion "")
    state := { s with levels := bottom } }

def processFrom (r : IndentRules) (s : IndentState) : List Token → Indented
  | [] => r.finish s
  | t :: ts =>
    let x := r.step s t
    if x.error.isSome then x
    else
      let y := r.processFrom x.state ts
      { y with tokens := x.tokens ++ y.tokens }

def processAfter (r : IndentRules) (s : IndentState) (ts : List Token) : Indented :=
  r.processFrom s.reset ts

end IndentRules

end AxisLang
