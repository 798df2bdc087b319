import AxisLang.Lexer.Cursor
import AxisLang.Lexer.Scanner
import AxisLang.Tree.Show

/-! The lexer: cuts a text into tokens, one at a time. Terminals are tried in a fixed order and the
first that matches wins; tokens of ignored kinds are passed over. -/
namespace AxisLang

abbrev TokenAction := Token → Except Error Value

/-- What a lexer is made from. `flags` holds the pattern flags as bits, `validate` asks for a check of
the patterns first, `patterns` tells whether a pattern engine is at hand, and `known` are the
terminals by which errors show names. -/
structure LexerConf where
  terminals : List Terminal
  ignore : List String := []
  flags : Nat := 0
  callbacks : List (String × TokenAction) := []
  validate : Bool := true
  bytes : Bool := false
  patterns : Bool := true
  known : List Terminal

structure Lexer where
  terminals : List Terminal
  ignore : List String
  newlineKinds : List String
  callbacks : List (String × TokenAction)
  bytes : Bool
  known : List Terminal
  scanner : Except Error Scanner

structure LexState where
  text : Text
  cursor : Cursor := {}
  last : Option Token := none
deriving DecidableEq, Repr, Inhabited

inductive Scan where
  | token (t : Token)
  | finished
  | failed (e : Error)
deriving Repr, Inhabited

def insertName (x : String) : List String → List String
  | [] => [x]
  | y :: ys => if x < y then x :: y :: ys else if x = y then y :: ys else y :: insertName x ys

def sortedNames (xs : List String) : List String :=
  xs.foldl (fun acc x => insertName x acc) []

def writtenSet (xs : List String) : String :=
  "\x7b" ++ ", ".intercalate ((sortedNames xs).map quote) ++ "\x7d"

def WidthFault.error : WidthFault → Error
  | .invalid => .fault .value ""
  | .needsCategories => .fault .missingImport ""

namespace LexState

def newline : List Char := ['\n']

def remaining (st : LexState) : Nat :=
  st.text.length - st.cursor.pos

def advance (test : Bool) (lexeme : Text) (st : LexState) : LexState :=
  { st with cursor := st.cursor.feed newline test lexeme.chars }

theorem remaining_advance {st : LexState} {lexeme : Text} (test : Bool)
    (h : st.cursor.pos < st.text.length) (hl : 0 < lexeme.chars.length) :
    (st.advance test lexeme).remaining < st.remaining := by
  simp only [remaining, advance, Cursor.feed_pos]
  omega

/-- Tokens found so far, as an error report shows them: the last one, if it has any text. -/
def history (st : LexState) : Option (List (Option Token)) :=
  match st.last with
  | some t => if t.content.isEmpty then none else some [some t]
  | none => none

end LexState

namespace Lexer

/-- Refuses a terminal whose pattern cannot be read or may match nothing. -/
def validateTerminal (f : RegexFlags) (t : Terminal) : Except Error Unit := do
  match t.pattern.compile f with
  | .error _ =>
    throw (.lexing ("Cannot compile token " ++ t.name ++ ": " ++ t.pattern.written))
  | .ok _ =>
    match t.pattern.width with
    | .error w => throw w.error
    | .ok (least, _) =>
      if least = 0 then
        throw (.lexing ("Lexer does not allow zero-width terminals. (" ++ t.name ++ ": "
          ++ t.pattern.written ++ ")"))

def validate (c : LexerConf) : Except Error Unit := do
  for t in c.terminals do
    validateTerminal (.ofBits c.flags) t
  let missing := c.ignore.filter fun n => !c.terminals.any fun t => t.name == n
  if !missing.isEmpty then
    throw (.lexing ("Ignore terminals are not defined: " ++ writtenSet missing))

def build (c : LexerConf) : Except Error Lexer := do
  if c.validate then validate c
  let terminals ← (Terminal.sorted c.terminals).mapError WidthFault.error
  return {
    terminals
    ignore := c.ignore
    newlineKinds := (c.terminals.filter fun t => t.pattern.mayHoldNewline).map (·.name)
    callbacks := c.callbacks
    bytes := c.bytes
    known := c.known
    scanner :=
      if c.patterns then Scanner.build (.ofBits c.flags) c.bytes terminals
      else .error (.fault .attribute "") }

def define (c : LexerConf) : Except Error Lexer :=
  if (c.terminals.map (·.name)).Nodup then build c else .error (.fault .assertion "")

/-- The kinds whose tokens are looked at again once found: those with keywords and those with an
action. -/
def watchedKinds (lx : Lexer) (sc : Scanner) : List String :=
  sortedNames (sc.keywords.map (·.1) ++ lx.callbacks.map (·.1))

def retype (sc : Scanner) (t : Token) : Token :=
  match sc.keyword? t.kind t.text.chars with
  | some kind => { t with kind }
  | none => t

/-- What becomes of a token once found. An action registered for a kind with keywords runs only on
tokens whose kind, after the look for keywords, is the one registered last. -/
def settle (lx : Lexer) (sc : Scanner) (t : Token) : Except Error Value :=
  match lx.callbacks.lookup t.kind with
  | none => .ok (.token (retype sc t))
  | some act =>
    if (sc.keywords.lookup t.kind).isSome then
      let t' := retype sc t
      if some t'.kind == lx.callbacks.getLast?.map (·.1) then act t' else .ok (.token t')
    else act t

def allowedKinds (lx : Lexer) (sc : Scanner) : List String :=
  let kinds := (sc.matchers.map (·.kind)).filter fun n => !lx.ignore.contains n
  if kinds.isEmpty then ["<END-OF-FILE>"] else sortedNames kinds

def unmatched (lx : Lexer) (sc : Scanner) (place : Option ParserPlace) (st : LexState) :
    CharReport where
  char := (offendingChar st.text st.cursor.pos).getD ""
  line := st.cursor.line
  column := st.cursor.column
  pos := st.cursor.pos
  expected := lx.allowedKinds sc
  history := st.history
  context := excerpt st.text st.cursor.pos excerptSpan
  terminals := lx.known
  place := place

def tokenAt (kind : String) (lexeme : Text) (start : Cursor) : Token :=
  { kind, text := lexeme, start := some start.pos, line := some start.line,
    column := some start.column }

def endedAt (t : Token) (stop : Cursor) : Token :=
  { t with endLine := some stop.line, endColumn := some stop.column, stop := some stop.pos }

/-- Finds the next token that is not ignored. The state returned is the one in which the request
ended, also when it failed. -/
def next (lx : Lexer) (place : Option ParserPlace) (st : LexState) : Scan × LexState :=
  if _open : st.cursor.pos < st.text.length then
    match lx.scanner with
    | .error e => (.failed e, st)
    | .ok sc =>
      if st.text.bytes != lx.bytes then (.failed (.fault .type ""), st)
      else
        match sc.scan (st.text.chars.drop st.cursor.pos) with
        | none => (.failed (.unexpectedChars (lx.unmatched sc place st)), st)
        | some (kind, n) =>
          let lexeme := st.text.extract st.cursor.pos n
          let test := lx.newlineKinds.contains kind
          let start := tokenAt kind lexeme st.cursor
          let after := st.advance test lexeme
          if lx.ignore.contains kind then
            match lx.settle sc start with
            | .error e => (.failed e, st)
            | .ok _ =>
              if _more : 0 < lexeme.chars.length then lx.next place after
              else (.failed (.fault .endless ""), st)
          else
            match lx.settle sc (endedAt start after.cursor) with
            | .error e => (.failed e, after)
            | .ok (.token t) => (.token t, { after with last := some t })
            | .ok v =>
              (.failed (.lexing ("Callbacks must return a token (returned " ++ v.written ++ ")")),
                after)
  else (.finished, st)
termination_by st.remaining
decreasing_by exact LexState.remaining_advance _ _open _more

def tokensFrom (lx : Lexer) : Nat → LexState → List Token × Option Error × LexState
  | 0, st => ([], some (.fault .endless ""), st)
  | fuel + 1, st =>
    match lx.next none st with
    | (.token t, st) =>
      let (ts, e, st) := lx.tokensFrom fuel st
      (t :: ts, e, st)
    | (.finished, st) => ([], none, st)
    | (.failed e, st) => ([], some e, st)

/-- The tokens of a text, how it ended, and where. A lexer whose tokens all have text needs no more
requests than the text has characters, and one to see the end. -/
def tokens (lx : Lexer) (text : Text) : List Token × Option Error × LexState :=
  lx.tokensFrom (text.length + 1) { text }

end Lexer

end AxisLang
