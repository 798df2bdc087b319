import AxisLang.Builder.Basic
import AxisLang.Datum
import AxisLang.Lexer.Indentation

/-! Settings of a parser: a fixed list of names with default values, which a caller may change. -/
namespace AxisLang

inductive Layout where
  | passthrough
  | indent (rules : IndentRules)
deriving DecidableEq, Repr, Inhabited

/-- The kinds of tokens that a layout needs in every state. -/
def Layout.always : Layout → List String
  | .passthrough => []
  | .indent r => [r.newline]

inductive Setting where
  | datum (d : Datum)
  | transformation (t : Transformation)
  | callbacks (fs : List (String × TokenAction))
  | skipping (names : List String)
  | layout (l : Layout)
deriving Inhabited

abbrev Settings := List (String × Setting)

namespace Setting

def truthy : Setting → Bool
  | .datum d => d.truthy
  | .callbacks fs => !fs.isEmpty
  | _ => true

def datum? : Setting → Option Datum
  | .datum d => some d
  | _ => none

def written : Setting → String
  | .datum d => d.written
  | _ => "<object>"

end Setting

namespace Settings

def defaults : List (String × Datum) := [
  ("debug", .bool false), ("keep_all_tokens", .bool false), ("tree_class", .null),
  ("cache", .bool false), ("postlex", .null), ("parser", .str "earley"), ("lexer", .str "auto"),
  ("transformer", .null), ("start", .str "start"), ("priority", .str "auto"),
  ("ambiguity", .str "auto"), ("regex", .bool false), ("propagate_positions", .bool false),
  ("lexer_callbacks", .record []), ("maybe_placeholders", .bool true), ("edit_terminals", .null),
  ("g_regex_flags", .int 0), ("use_bytes", .bool false), ("import_paths", .list []),
  ("source_path", .null), ("_plugins", .record [])]

def flags : List String := ["debug", "keep_all_tokens", "regex", "maybe_placeholders"]

def loadable : List String := ["postlex", "transformer", "lexer_callbacks", "use_bytes", "debug",
  "g_regex_flags", "regex", "propagate_positions", "tree_class", "_plugins"]

def writtenNames (names : List String) : String :=
  "dict_keys(" ++ bracketed (names.map quote) ++ ")"

def get? (s : Settings) (name : String) : Option Setting :=
  s.lookup name

def datum (s : Settings) (name : String) : Datum :=
  ((s.get? name).bind Setting.datum?).getD .null

def isOn (s : Settings) (name : String) : Bool :=
  (s.get? name).any Setting.truthy

def adopt (name : String) (v : Setting) : Setting :=
  if flags.contains name then .datum (.bool v.truthy)
  else
    match name, v with
    | "start", .datum (.str s) => .datum (.list [.str s])
    | _, v => v

def parsers : List Datum := [.str "earley", .str "lalr", .str "cyk", .null]

def isAmong (v : Setting) (allowed : List Datum) : Bool :=
  match v with
  | .datum d => allowed.any d.sameKey
  | _ => false

def requireAmong (v : Setting) (allowed : List Datum) (text : String → String → String) :
    Except Error Unit :=
  if isAmong v allowed then .ok ()
  else
    let items := ", ".intercalate (allowed.map Datum.written)
    let shown := if allowed.length = 1 then "(" ++ items ++ ",)" else "(" ++ items ++ ")"
    .error (.configuration (text v.written shown))

def notAmong (v allowed : String) : String :=
  "Got " ++ v ++ ", expected one of " ++ allowed

def read (given : Settings) : Except Error Settings := do
  let all := defaults.map fun (name, d) => (name, adopt name ((given.get? name).getD (.datum d)))
  let parser := (get? all "parser").getD (.datum .null)
  requireAmong parser parsers notAmong
  if isAmong parser [.str "earley"] && isOn all "transformer" then
    throw (.configuration ("Cannot specify an embedded transformer when using the Earley algorithm. "
      ++ "Please use your transformer on the resulting parse tree, or use a different algorithm "
      ++ "(i.e. LALR)"))
  let unknown := given.filter fun (name, _) => (defaults.lookup name).isNone
  if !unknown.isEmpty then
    throw (.configuration ("Unknown options: " ++ writtenNames (unknown.map (·.1))))
  return all

/-- The settings with one changed. Only names of settings can be set; the value is kept as it is. -/
def set (s : Settings) (name : String) (v : Setting) : Except Error Settings :=
  if (s.get? name).isSome then
    .ok (s.map fun (n, w) => if n = name then (n, v) else (n, w))
  else .error (.configuration (quote name ++ " isn't a valid option. Expected one of: "
    ++ writtenNames (s.map (·.1))))

def update (s more : Settings) : Settings :=
  s.map (fun (n, v) => (n, (more.get? n).getD v))
    ++ more.filter fun (n, _) => (s.get? n).isNone

def lexersFor : String → List Datum
  | "lalr" => [.str "basic", .str "contextual"]
  | "earley" => [.str "basic", .str "dynamic", .str "dynamic_complete"]
  | _ => [.str "basic"]

def validate (s : Settings) : Except Error Unit := do
  let parser := (s.get? "parser").getD (.datum .null)
  requireAmong parser [.str "lalr", .str "earley", .str "cyk"] notAmong
  match parser with
  | .datum (.str p) =>
    requireAmong ((s.get? "lexer").getD (.datum .null)) (lexersFor p) fun v allowed =>
      "Parser " ++ quote p ++ " does not support lexer " ++ v ++ ", expected one of " ++ allowed
  | _ => pure ()

def positions (s : Settings) : Except Error PositionRule :=
  match (s.get? "propagate_positions").getD (.datum (.bool false)) with
  | .skipping names => .ok (.skipping names)
  | .datum (.bool true) => .ok .all
  | .datum (.bool false) => .ok .off
  | v => .error (.configuration ("Invalid option for propagate_positions: " ++ v.written))

/-- The transformer to apply while parsing. A chain of transformers has no handlers of its own. -/
def transformer? (s : Settings) : Option Transformer :=
  match s.get? "transformer" with
  | some (.transformation (.single t)) => some t
  | _ => none

def callbacks (s : Settings) : List (String × TokenAction) :=
  match s.get? "lexer_callbacks" with
  | some (.callbacks fs) => fs
  | _ => []

def layout? (s : Settings) : Option Layout :=
  match s.get? "postlex" with
  | some (.layout l) => some l
  | _ => none

/-- The outcome of building a parser from the text of a grammar, which is not part of this library:
the settings are checked, then the attempt is given up. -/
def fromText (given : Settings) : Error :=
  match read given with
  | .error e => e
  | .ok s =>
    if s.isOn "regex" then .fault .missingImport ""
    else if s.isOn "use_bytes" then .fault .undefinedName ""
    else if s.isOn "cache" then
      if isAmong ((s.get? "parser").getD (.datum .null)) [.str "lalr"] then
        .fault .missingImport ""
      else .configuration "cache only works with parser='lalr' for now"
    else .fault .undefinedName ""

end Settings

end AxisLang
