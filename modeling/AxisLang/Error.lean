import AxisLang.Excerpt
import AxisLang.Terminal.Basic
import AxisLang.Token

/-! Errors of lexing, parsing and tree handling: causes as data, and their messages. -/
namespace AxisLang

inductive FaultKind where
  | index
  | key
  | attribute
  | value
  | type
  | assertion
  | undefinedName
  | unsupported
  | missingImport
  | missingModule
  | runtime
  | endOfInput
  | badPattern
  | encoding
  | endless
deriving DecidableEq, Repr, Inhabited

structure ParserPlace where
  height : Nat
  state : Nat
deriving DecidableEq, Repr, Inhabited

inductive Offender where
  | token (t : Token)
  | bare (s : String)
deriving DecidableEq, Repr, Inhabited

/-- A token that the parser could not take. `terminals` are those by which expected names are shown;
without any, the names stand as they are. -/
structure TokenReport where
  offender : Offender
  expected : List String
  history : Option (List (Option Token)) := none
  terminals : List Terminal := []
  place : Option ParserPlace := none
deriving Repr, Inhabited

structure CharReport where
  char : String
  line : Int
  column : Int
  pos : Int
  expected : List String
  history : Option (List (Option Token)) := none
  context : String
  terminals : List Terminal := []
  place : Option ParserPlace := none
deriving Repr, Inhabited

inductive Error where
  | fault (kind : FaultKind) (text : String)
  | configuration (text : String)
  | grammar (text : String)
  | lexing (text : String)
  | dedent (column expected : Int)
  | visit (rule : String) (cause : Error)
  | unexpectedToken (report : TokenReport)
  | unexpectedChars (report : CharReport)
deriving Repr, Inhabited

/-- The name by which a terminal is shown among those expected. A name that belongs to no terminal
stands as it is. -/
def expectedName? (terminals : List Terminal) (name : String) : Option String :=
  match terminals.reverse.find? fun t => t.name == name with
  | some t => t.userName?
  | none => some name

/-- The list of expected terminals, one to a line. There is none if a name cannot be shown. -/
def expectedLines? (terminals : List Terminal) (expected : List String) : Option String :=
  (expected.mapM (expectedName? terminals)).map fun names =>
    "Expected one of: \n\t* " ++ "\n\t* ".intercalate names ++ "\n"

def writtenToken? : Option Token → String
  | some t => t.written
  | none => "None"

def writtenPosition : Option Int → String
  | some n => toString n
  | none => "None"

namespace Offender

def written : Offender → String
  | .token t => t.written
  | .bare s => quote s

def lineText : Offender → String
  | .token t => writtenPosition t.line
  | .bare _ => "?"

def columnText : Offender → String
  | .token t => writtenPosition t.column
  | .bare _ => "?"

def start : Offender → Option Int
  | .token t => t.start
  | .bare _ => none

end Offender

def TokenReport.message? (r : TokenReport) : Option String := do
  let expected ← expectedLines? r.terminals r.expected
  let history :=
    match r.history with
    | some (t :: ts) => "Previous tokens: " ++ bracketed ((t :: ts).map writtenToken?) ++ "\n"
    | _ => ""
  return "Unexpected token " ++ r.offender.written ++ " at line " ++ r.offender.lineText
    ++ ", column " ++ r.offender.columnText ++ ".\n" ++ expected ++ history

def CharReport.message? (r : CharReport) : Option String := do
  let expected ← if r.expected.isEmpty then some "" else expectedLines? r.terminals r.expected
  let history :=
    match r.history with
    | some (t :: ts) =>
      "\nPrevious tokens: " ++ ", ".intercalate ((t :: ts).map writtenToken?) ++ "\n"
    | _ => ""
  return "No terminal matches '" ++ r.char ++ "' in the current parser context, at line "
    ++ toString r.line ++ " col " ++ toString r.column ++ "\n\n" ++ r.context ++ expected ++ history

def dedentMessage (column expected : Int) : String :=
  "Unexpected dedent to column " ++ toString column ++ ". Expected dedent to "
    ++ toString expected

/-- The message of an error. Reports about the input may have none. -/
def Error.message? : Error → Option String
  | .fault _ text => some text
  | .configuration text => some text
  | .grammar text => some text
  | .lexing text => some text
  | .dedent column expected => some (dedentMessage column expected)
  | .visit rule cause =>
    some ("Error trying to process rule \"" ++ rule ++ "\":\n\n" ++ (cause.message?).getD "")
  | .unexpectedToken r => r.message?
  | .unexpectedChars r => r.message?

end AxisLang
