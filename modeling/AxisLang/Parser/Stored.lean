import AxisLang.Parser.Basic

/-! Reading stored grammars from plain data. Terminals and rules stand in a memo and are referred to
by number; the rest of the data holds the settings, the parts of lexer and parser, and the parse
table. -/
namespace AxisLang

namespace Stored

inductive Entry where
  | terminal (t : Terminal)
  | rule (r : Rule)
  | other
deriving Repr, Inhabited

abbrev Memo := List (String × Entry)

def missing : Error := .fault .key ""

def malformed : Error := .fault .type ""

def field (d : Datum) (name : String) : Except Error Datum :=
  match d with
  | .record _ =>
    match d.field? name with
    | some v => .ok v
    | none => .error missing
  | _ => .error malformed

def text : Datum → Except Error String
  | .str s => .ok s
  | _ => .error malformed

def text? : Datum → Except Error (Option String)
  | .null => .ok none
  | .str s => .ok (some s)
  | _ => .error malformed

def number : Datum → Except Error Int
  | .int n => .ok n
  | .bool b => .ok (if b then 1 else 0)
  | _ => .error malformed

def items : Datum → Except Error (List Datum)
  | .list ds => .ok ds
  | _ => .error malformed

def fields : Datum → Except Error (List (String × Datum))
  | .record fs => .ok fs
  | _ => .error malformed

def texts (d : Datum) : Except Error (List String) := do
  (← items d).mapM text

def typeOf (d : Datum) (allowed : List String) : Except Error String := do
  let name ← text (← field d "__type__")
  if allowed.contains name then return name else throw missing

def widths : Datum → Except Error (Option (Nat × Nat))
  | .null => .ok none
  | .list [a, b] => do return some ((← number a).toNat, (← number b).toNat)
  | _ => .error malformed

def pattern (d : Datum) : Except Error Pattern := do
  let type ← typeOf d ["PatternStr", "PatternRE"]
  let value ← text (← field d "value")
  let flags ← texts (← field d "flags")
  if type = "PatternStr" then
    return { kind := .literal, value, flags, spelling := .unrecorded }
  else
    let knownWidth ← widths (← field d "_width")
    return { kind := .regex, value, flags, spelling := .unrecorded, knownWidth }

def terminal (d : Datum) : Except Error Terminal := do
  let name ← text (← field d "name")
  let pattern ← pattern (← field d "pattern")
  let priority ← number (← field d "priority")
  return { name, pattern, priority }

def symbol (d : Datum) : Except Error Symbol := do
  let type ← typeOf d ["Terminal", "NonTerminal"]
  let name ← text (← field d "name")
  if type = "Terminal" then return .terminal name (← field d "filter_out").truthy
  else return .nonterminal ⟨name, false⟩

def ruleOptions (d : Datum) : Except Error RuleOptions := do
  let _ ← typeOf d ["RuleOptions"]
  let keepAll := (← field d "keep_all_tokens").truthy
  let expandSingle := (← field d "expand1").truthy
  let priority ←
    match ← field d "priority" with
    | .null => pure none
    | p => do pure (some (← number p))
  let template ← text? (← field d "template_source")
  let gaps := (← items (← field d "empty_indices")).map Datum.truthy
  return { keepAll, expandSingle, priority, template, gaps }

def rule (d : Datum) : Except Error Rule := do
  let origin ← symbol (← field d "origin")
  let expansion ← (← items (← field d "expansion")).mapM symbol
  let order ← number (← field d "order")
  let other ← text? (← field d "alias")
  let options ← ruleOptions (← field d "options")
  return { origin, expansion, order, «alias» := other, options }

def entry (d : Datum) : Except Error Entry :=
  match d.field? "__type__" with
  | some (.str "TerminalDef") => do return .terminal (← terminal d)
  | some (.str "Rule") => do return .rule (← rule d)
  | some _ => .error missing
  | none => if (d.field? "@").isSome then .error missing else .ok .other

def memo (d : Datum) : Except Error Memo := do
  if !d.truthy then throw (.fault .assertion "")
  (← fields d).mapM fun (name, v) => return (name, ← entry v)

/-- The entry that a reference names, if the record is a reference. -/
def reference? (m : Memo) (d : Datum) : Except Error (Option Entry) :=
  match d.field? "@" with
  | none => .ok none
  | some k =>
    match m.lookup k.plain with
    | some e => .ok (some e)
    | none => .error missing

def ruleIn (m : Memo) (d : Datum) : Except Error Rule := do
  match ← reference? m d with
  | some (.rule r) => return r
  | some _ => throw (.fault .attribute "")
  | none => rule d

def terminalIn (m : Memo) (d : Datum) : Except Error Terminal := do
  match ← reference? m d with
  | some (.terminal t) => return t
  | some _ => throw (.fault .attribute "")
  | none =>
    let _ ← typeOf d ["TerminalDef"]
    terminal d

def lexerPart (m : Memo) (d : Datum) : Except Error LexerPart := do
  let conf ← field d "lexer_conf"
  let terminals ← (← items (← field conf "terminals")).mapM (terminalIn m)
  let ignore ← texts (← field conf "ignore")
  let _ ← field conf "g_regex_flags"
  let _ ← field conf "use_bytes"
  let lexer ← field conf "lexer_type"
  return { terminals, ignore, lexer }

def action (m : Memo) (d : Datum) : Except Error Action := do
  match ← items d with
  | [kind, arg] =>
    if kind.sameKey (.int 1) then return .reduce (← ruleIn m arg)
    else return .shift (← number arg).toNat
  | _ => throw (.fault .value "")

/-- The number that a text shows. -/
def numeral (s : String) : Except Error Nat :=
  match s.toNat? with
  | some n => .ok n
  | none => .error malformed

def stateMap (d : Datum) : Except Error (List (String × Nat)) := do
  (← fields d).mapM fun (name, v) => return (name, (← number v).toNat)

def table (m : Memo) (d : Datum) : Except Error Table := do
  let tokens ← field d "tokens"
  let rows ← (← fields (← field d "states")).mapM fun (state, row) => do
    let row ← (← fields row).mapM fun (token, act) => do
      let name ← text (← field tokens token)
      return (name, ← action m act)
    return (← numeral state, row)
  let starts ← stateMap (← field d "start_states")
  let ends ← stateMap (← field d "end_states")
  return { rows, starts, ends }

def parserPart (m : Memo) (d : Datum) : Except Error ParserPart := do
  let conf ← field d "parser_conf"
  let _ ← (← items (← field conf "rules")).mapM (ruleIn m)
  let start ← texts (← field conf "start")
  let parser ← field conf "parser_type"
  return { start, parser, table := ← table m (← field d "parser") }

def settings (d : Datum) : Except Error Settings := do
  return (← fields (← field d "options")).map fun (name, v) => (name, .datum v)

def grammar (data memoData : Datum) : StoredGrammar where
  memo := (memo memoData).map fun _ => ()
  settings := settings data
  rules := do
    let m ← memo memoData
    (← items (← field data "rules")).mapM (ruleIn m)
  lexer := do
    let m ← memo memoData
    lexerPart m (← field data "parser")
  parser := do
    let m ← memo memoData
    parserPart m (← field data "parser")

end Stored

end AxisLang
