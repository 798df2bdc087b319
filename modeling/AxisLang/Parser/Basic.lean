import AxisLang.Parser.Stream

/-! Parsers: loading a stored grammar under given settings, and parsing with it. -/
namespace AxisLang

structure LexerPart where
  terminals : List Terminal
  ignore : List String
  lexer : Datum
deriving Repr, Inhabited

structure ParserPart where
  start : List String
  parser : Datum
  table : Table
deriving Repr, Inhabited

/-- A stored grammar. A part may turn out to be unreadable, which shows when the part is needed. -/
structure StoredGrammar where
  memo : Except Error Unit
  settings : Except Error Settings
  rules : Except Error (List Rule)
  lexer : Except Error LexerPart
  parser : Except Error ParserPart

inductive Lexing where
  | contextual (lexer : ContextualLexer)
  | plain
  | none

structure Parser where
  settings : Settings
  rules : List Rule
  terminals : List Terminal
  lexerConf : LexerConf
  lexing : Lexing
  start : List String
  kind : Datum
  table : Table
  semantics : Semantics Value
  layout : Option Layout
  debug : Bool

/-- A request to parse. `handler` is the answer of an error handler, if there is one; `interactive`
asks to parse step by step. -/
structure ParseRequest where
  text : Text
  start : Datum := .null
  handler : Option Bool := none
  interactive : Bool := false
deriving Repr, Inhabited

structure ParseAnswer where
  result : Except Error Value
  heard : List String := []
  printed : String := ""

namespace Parser

def onToken (t : Option Transformer) (terminals : List Terminal) : TokenAction := fun tok =>
  match t with
  | none => .ok (.token tok)
  | some t =>
    if terminals.any fun d => d.name == tok.kind then
      match t.member? tok.kind with
      | some (.handler h) => h.body (.token tok)
      | some (.constant "NoneType") => .ok (.token tok)
      | some (.constant type) => .error (notCallable type)
      | none => .ok (.token tok)
    else .ok (.token tok)

def onRule (builders : List (Rule × NodeBuilder)) (r : Rule) (items : List Value) :
    Except Error Value :=
  match Builder.lookup? builders r with
  | some f => f items
  | none => .error (.fault .key "")

def builderOptions (s : Settings) : Except Error BuilderOptions := do
  return {
    positions := ← s.positions
    ambiguous := !Settings.isAmong (.datum (s.datum "parser")) [.str "lalr"]
      && Settings.isAmong (.datum (s.datum "ambiguity")) [.str "explicit"]
    placeholders := s.isOn "maybe_placeholders" }

def builders (s : Settings) (rules : List Rule) : Except Error (List (Rule × NodeBuilder)) := do
  if Settings.isAmong (.datum (s.datum "ambiguity")) [.str "forest"] then return []
  Builder.build (← builderOptions s) s.transformer? rules

/-- The lexers of a parser. A filter cannot be used without a lexer. -/
def lexingFor (conf : LexerConf) (lexer : Datum) (table : Table) (layout : Option Layout) :
    Except Error Lexing :=
  match lexer with
  | .str "contextual" => do
    let always := (layout.map Layout.always).getD []
    return .contextual (← ContextualLexer.build conf table.accepts always)
  | .str "basic" => do
    let _ ← Lexer.build conf
    return .plain
  | .str "dynamic" => if layout.isSome then .error (.fault .assertion "") else .ok .none
  | .str "dynamic_complete" => if layout.isSome then .error (.fault .assertion "") else .ok .none
  | _ => .error (.fault .type "")

def load (g : StoredGrammar) (given : Settings) : Except Error Parser := do
  g.memo
  let stored ← g.settings
  let barred := (given.map (·.1)).filter fun n => !Settings.loadable.contains n
  if barred.any fun n => (Settings.defaults.lookup n).isSome then
    throw (.configuration ("Some options are not allowed when loading a Parser: "
      ++ writtenSet barred))
  let settings ← Settings.read (stored.update given)
  let rules ← g.rules
  settings.validate
  let lexer ← g.lexer
  let conf : LexerConf := {
    terminals := lexer.terminals
    ignore := lexer.ignore
    flags := match settings.datum "g_regex_flags" with
      | .int n => n.toNat
      | _ => 0
    callbacks := settings.callbacks
    validate := false
    bytes := settings.isOn "use_bytes"
    patterns := !settings.isOn "regex"
    known := lexer.terminals }
  let builders ← builders settings rules
  let parser ← g.parser
  return {
    settings
    rules
    terminals := lexer.terminals
    lexerConf := conf
    lexing := ← lexingFor conf lexer.lexer parser.table settings.layout?
    start := parser.start
    kind := parser.parser
    table := parser.table
    semantics := ⟨onToken settings.transformer? lexer.terminals, onRule builders⟩
    layout := settings.layout?
    debug := settings.isOn "debug" }

def written (p : Parser) : String :=
  "Lark(open('<deserialized>'), parser=" ++ (p.settings.datum "parser").written ++ ", lexer="
    ++ (p.settings.datum "lexer").written ++ ", ...)"

def terminal? (p : Parser) (name : String) : Option Terminal :=
  p.terminals.reverse.find? fun t => t.name == name

def rootLexer (p : Parser) (keepIgnored : Bool) : Except Error Lexer :=
  Lexer.build (if keepIgnored then { p.lexerConf with ignore := [] } else p.lexerConf)

def chooseStart (p : Parser) (asked : Datum) : Except Error String :=
  let names := bracketed (p.start.map quote)
  match asked with
  | .null =>
    match p.start with
    | [s] => .ok s
    | [] => .error (.fault .value "")
    | _ => .error (.configuration ("('Lark initialized with more than 1 possible start rule. "
        ++ "Must specify which start rule to parse', " ++ names ++ ")"))
  | .str s =>
    if p.start.contains s then .ok s
    else .error (.configuration ("Unknown start rule " ++ s ++ ". Must be one of " ++ names))
  | d =>
    .error (.configuration ("Unknown start rule " ++ d.written ++ ". Must be one of " ++ names))

def stackDump (states : List Nat) : String :=
  "\nSTATE STACK DUMP\n----------------\n"
    ++ String.join (states.reverse.zipIdx.map fun (s, i) =>
      toString i ++ ") " ++ toString s ++ "\n") ++ "\n"

def isReport : Error → Bool
  | .unexpectedToken _ => true
  | .unexpectedChars _ => true
  | _ => false

def runFrom (p : Parser) (start : String) (stream : TokenStream) : ParseAnswer :=
  match p.table.starts.lookup start, p.table.ends.lookup start with
  | some first, some final =>
    let conf : RunConf Value := ⟨p.table, p.semantics, final, p.layout⟩
    match conf.run stream { stack := ⟨[first], []⟩ } with
    | .ok v => { result := .ok v }
    | .error f =>
      { result := .error f.error
        printed := if p.debug && !isReport f.error then stackDump f.states else "" }
  | _, _ => { result := .error (.fault .key "") }

/-- What an error handler changes. It hears of unexpected tokens only, and going on after one is not
possible. -/
def handled (handler : Option Bool) (a : ParseAnswer) : ParseAnswer :=
  match handler, a.result with
  | some _, .error (.unexpectedChars _) => { a with result := .error (.fault .attribute "") }
  | some goOn, .error (.unexpectedToken r) =>
    { a with
      result := .error (if goOn then .fault .attribute "" else .unexpectedToken r)
      heard := ["UnexpectedToken"] }
  | _, _ => a

def streamOf (p : Parser) (text : Text) : TokenStream :=
  match p.lexing with
  | .contextual lexer => .text lexer { text }
  | .plain => .broken (.fault .undefinedName "")
  | .none => .broken (.fault .attribute "")

def answer (p : Parser) (q : ParseRequest) : ParseAnswer :=
  match p.chooseStart q.start with
  | .error e => { result := .error e }
  | .ok start =>
    if q.interactive then
      if Settings.isAmong (.datum p.kind) [.str "lalr"] then
        { result := .error (.fault .undefinedName "") }
      else
        { result := .error (.configuration
            "parse_interactive() currently only works with parser='lalr' ") }
    else handled q.handler (p.runFrom start (p.streamOf q.text))

def parse (p : Parser) (text : String) : Except Error Value :=
  (p.answer { text := Text.ofString text }).result

/-- Parses tokens that were found elsewhere. `dynamic` says that the parser does its own lexing, which
leaves no room for a layout. -/
def parseTokens (p : Parser) (dynamic : Bool) (tokens : List Token) : Except Error Value :=
  if dynamic && p.layout.isSome then .error (.fault .assertion "")
  else (p.runFrom "start" (.tokens tokens)).result

end Parser

end AxisLang
