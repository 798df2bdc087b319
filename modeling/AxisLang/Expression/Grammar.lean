import AxisLang.Parser.Basic

/-! The grammar of expressions: its terminals, its rules and its parse table.

An expression lists input variables, then an arrow, then at most one output variable. A variable has a
name, axes in brackets, or both. An axis is a name, an ellipsis, or a product of these. -/
namespace AxisLang

namespace Expression

def literalTerminal (name value : String) : Terminal :=
  { name, pattern := { kind := .literal, value, spelling := .unrecorded } }

/-- A stored terminal that matches a regular expression of unbounded width. -/
def regexTerminal (name value : String) (least : Nat) : Terminal where
  name := name
  pattern := {
    kind := .regex
    value := value
    spelling := .unrecorded
    knownWidth := some (least, Regex.unbounded) }

def terminals : List Terminal := [
  regexTerminal "WS" "(?:[ \t\x0c\r\n])+" 1,
  regexTerminal "COMMENT" "//(?:[^\n])*" 2,
  regexTerminal "__ANON_0" "[a-zA-Z_]([a-zA-Z0-9_])*" 1,
  literalTerminal "__ANON_1" "...",
  literalTerminal "STAR" "*",
  literalTerminal "COMMA" ",",
  literalTerminal "LSQB" "[",
  literalTerminal "RSQB" "]",
  literalTerminal "__ANON_2" "->"]

def ignored : List String := ["COMMENT", "WS"]

def ruleSymbol (name : String) : Symbol := .nonterminal ⟨name, true⟩

/-- A nonterminal that only helps to repeat others. -/
def helperSymbol (name : String) : Symbol := .nonterminal ⟨name, false⟩

def kept (name : String) : Symbol := .terminal name false

/-- A terminal that trees leave out. -/
def mark (name : String) : Symbol := .terminal name true

def nameRule : Rule where
  origin := ruleSymbol "name"
  expansion := [kept "__ANON_0"]

def ellipsisRule : Rule where
  origin := ruleSymbol "ellipsis"
  expansion := [mark "__ANON_1"]

def axisOfName : Rule where
  origin := ruleSymbol "axis_name"
  expansion := [ruleSymbol "name"]
  options := { expandSingle := true }

def axisOfEllipsis : Rule where
  origin := ruleSymbol "axis_name"
  expansion := [ruleSymbol "ellipsis"]
  order := 1
  options := { expandSingle := true }

def productRule : Rule where
  origin := ruleSymbol "product_axis"
  expansion := [ruleSymbol "axis_name", helperSymbol "__product_axis_plus_0"]

def itemOfProduct : Rule where
  origin := ruleSymbol "axis_name_or_product"
  expansion := [ruleSymbol "product_axis"]
  options := { expandSingle := true }

def itemOfAxis : Rule where
  origin := ruleSymbol "axis_name_or_product"
  expansion := [ruleSymbol "axis_name"]
  order := 1
  options := { expandSingle := true }

def axesOfMany : Rule where
  origin := ruleSymbol "axes"
  expansion := [ruleSymbol "axis_name_or_product", helperSymbol "__axes_plus_1"]

def axesOfOne : Rule where
  origin := ruleSymbol "axes"
  expansion := [ruleSymbol "axis_name_or_product"]
  order := 1

def variableWithAxes : Rule where
  origin := ruleSymbol "variable"
  expansion := [ruleSymbol "name", mark "LSQB", ruleSymbol "axes", mark "RSQB"]

def variableOfName : Rule where
  origin := ruleSymbol "variable"
  expansion := [ruleSymbol "name"]
  order := 1

def variableOfAxes : Rule where
  origin := ruleSymbol "variable"
  expansion := [mark "LSQB", ruleSymbol "axes", mark "RSQB"]
  order := 2

def inputsOfMany : Rule where
  origin := ruleSymbol "input_variables"
  expansion := [ruleSymbol "variable", helperSymbol "__input_variables_star_2"]

def inputsOfOne : Rule where
  origin := ruleSymbol "input_variables"
  expansion := [ruleSymbol "variable"]
  order := 1

def outputOfVariable : Rule where
  origin := ruleSymbol "output_variable"
  expansion := [ruleSymbol "variable"]

def outputAbsent : Rule where
  origin := ruleSymbol "output_variable"
  expansion := []
  order := 1

def einsumRule : Rule where
  origin := ruleSymbol "einsum"
  expansion := [ruleSymbol "input_variables", mark "__ANON_2", ruleSymbol "output_variable"]

def startRule : Rule where
  origin := ruleSymbol "start"
  expansion := [ruleSymbol "einsum"]
  options := { expandSingle := true }

def factorsFirst : Rule where
  origin := helperSymbol "__product_axis_plus_0"
  expansion := [mark "STAR", ruleSymbol "axis_name"]

def factorsMore : Rule where
  origin := helperSymbol "__product_axis_plus_0"
  expansion := [helperSymbol "__product_axis_plus_0", mark "STAR", ruleSymbol "axis_name"]
  order := 1

def itemsFirst : Rule where
  origin := helperSymbol "__axes_plus_1"
  expansion := [mark "COMMA", ruleSymbol "axis_name_or_product"]

def itemsMore : Rule where
  origin := helperSymbol "__axes_plus_1"
  expansion := [helperSymbol "__axes_plus_1", mark "COMMA", ruleSymbol "axis_name_or_product"]
  order := 1

def variablesFirst : Rule where
  origin := helperSymbol "__input_variables_star_2"
  expansion := [mark "COMMA", ruleSymbol "variable"]

def variablesMore : Rule where
  origin := helperSymbol "__input_variables_star_2"
  expansion := [helperSymbol "__input_variables_star_2", mark "COMMA", ruleSymbol "variable"]
  order := 1

def rules : List Rule := [
  nameRule, ellipsisRule, axisOfName, axisOfEllipsis, productRule, itemOfProduct, itemOfAxis,
  axesOfMany, axesOfOne, variableWithAxes, variableOfName, variableOfAxes, inputsOfMany,
  inputsOfOne, outputOfVariable, outputAbsent, einsumRule, startRule, factorsFirst, factorsMore,
  itemsFirst, itemsMore, variablesFirst, variablesMore]

def rows : List (Nat × Row) := [
  (0, []),
  (1, [("name", .shift 25), ("variable", .shift 18), ("LSQB", .shift 24),
    ("__ANON_0", .shift 15)]),
  (2, [("RSQB", .shift 8)]),
  (3, [("COMMA", .shift 1), ("__input_variables_star_2", .shift 19),
    ("__ANON_2", .reduce inputsOfOne)]),
  (4, [("RSQB", .reduce itemsMore), ("COMMA", .reduce itemsMore)]),
  (5, [("$END", .reduce startRule)]),
  (6, [("name", .shift 25), ("LSQB", .shift 24), ("output_variable", .shift 9),
    ("variable", .shift 7), ("__ANON_0", .shift 15), ("$END", .reduce outputAbsent)]),
  (7, [("$END", .reduce outputOfVariable)]),
  (8, [("__ANON_2", .reduce variableOfAxes), ("COMMA", .reduce variableOfAxes),
    ("$END", .reduce variableOfAxes)]),
  (9, [("$END", .reduce einsumRule)]),
  (10, [("__ANON_2", .reduce variableWithAxes), ("COMMA", .reduce variableWithAxes),
    ("$END", .reduce variableWithAxes)]),
  (11, [("__ANON_2", .shift 6)]),
  (12, [("name", .shift 25), ("LSQB", .shift 24), ("variable", .shift 32),
    ("__ANON_0", .shift 15)]),
  (13, [("RSQB", .shift 10)]),
  (14, [("RSQB", .reduce factorsMore), ("STAR", .reduce factorsMore),
    ("COMMA", .reduce factorsMore)]),
  (15, [("LSQB", .reduce nameRule), ("COMMA", .reduce nameRule),
    ("__ANON_2", .reduce nameRule), ("$END", .reduce nameRule), ("RSQB", .reduce nameRule),
    ("STAR", .reduce nameRule)]),
  (16, [("RSQB", .reduce factorsFirst), ("STAR", .reduce factorsFirst),
    ("COMMA", .reduce factorsFirst)]),
  (17, [("axes", .shift 13), ("axis_name_or_product", .shift 22), ("__ANON_1", .shift 31),
    ("axis_name", .shift 36), ("name", .shift 30), ("ellipsis", .shift 34),
    ("product_axis", .shift 21), ("__ANON_0", .shift 15)]),
  (18, [("__ANON_2", .reduce variablesFirst), ("COMMA", .reduce variablesFirst)]),
  (19, [("COMMA", .shift 12), ("__ANON_2", .reduce inputsOfMany)]),
  (20, [("__ANON_1", .shift 31), ("axis_name", .shift 36), ("name", .shift 30),
    ("ellipsis", .shift 34), ("product_axis", .shift 21), ("axis_name_or_product", .shift 4),
    ("__ANON_0", .shift 15)]),
  (21, [("RSQB", .reduce itemOfProduct), ("COMMA", .reduce itemOfProduct)]),
  (22, [("COMMA", .shift 33), ("__axes_plus_1", .shift 35), ("RSQB", .reduce axesOfOne)]),
  (23, [("ellipsis", .shift 34), ("name", .shift 30), ("__ANON_1", .shift 31),
    ("axis_name", .shift 14), ("__ANON_0", .shift 15)]),
  (24, [("axis_name_or_product", .shift 22), ("__ANON_1", .shift 31), ("axis_name", .shift 36),
    ("name", .shift 30), ("ellipsis", .shift 34), ("axes", .shift 2),
    ("product_axis", .shift 21), ("__ANON_0", .shift 15)]),
  (25, [("LSQB", .shift 17), ("__ANON_2", .reduce variableOfName),
    ("COMMA", .reduce variableOfName), ("$END", .reduce variableOfName)]),
  (26, [("ellipsis", .shift 34), ("name", .shift 30), ("__ANON_1", .shift 31),
    ("axis_name", .shift 16), ("__ANON_0", .shift 15)]),
  (27, [("start", .shift 0), ("variable", .shift 3), ("LSQB", .shift 24), ("name", .shift 25),
    ("einsum", .shift 5), ("input_variables", .shift 11), ("__ANON_0", .shift 15)]),
  (28, [("STAR", .shift 23), ("RSQB", .reduce productRule), ("COMMA", .reduce productRule)]),
  (29, [("RSQB", .reduce itemsFirst), ("COMMA", .reduce itemsFirst)]),
  (30, [("RSQB", .reduce axisOfName), ("STAR", .reduce axisOfName),
    ("COMMA", .reduce axisOfName)]),
  (31, [("RSQB", .reduce ellipsisRule), ("STAR", .reduce ellipsisRule),
    ("COMMA", .reduce ellipsisRule)]),
  (32, [("__ANON_2", .reduce variablesMore), ("COMMA", .reduce variablesMore)]),
  (33, [("__ANON_1", .shift 31), ("axis_name", .shift 36), ("name", .shift 30),
    ("ellipsis", .shift 34), ("product_axis", .shift 21), ("axis_name_or_product", .shift 29),
    ("__ANON_0", .shift 15)]),
  (34, [("RSQB", .reduce axisOfEllipsis), ("STAR", .reduce axisOfEllipsis),
    ("COMMA", .reduce axisOfEllipsis)]),
  (35, [("COMMA", .shift 20), ("RSQB", .reduce axesOfMany)]),
  (36, [("__product_axis_plus_0", .shift 28), ("STAR", .shift 26),
    ("RSQB", .reduce itemOfAxis), ("COMMA", .reduce itemOfAxis)])]

def table : Table where
  rows := rows
  starts := [("start", 27)]
  ends := [("start", 0)]

def settings : Settings := [
  ("debug", .datum (.bool false)), ("keep_all_tokens", .datum (.bool false)),
  ("tree_class", .datum .null), ("cache", .datum (.bool false)), ("postlex", .datum .null),
  ("parser", .datum (.str "lalr")), ("lexer", .datum (.str "contextual")),
  ("transformer", .datum .null), ("start", .datum (.list [.str "start"])),
  ("priority", .datum (.str "normal")), ("ambiguity", .datum (.str "auto")),
  ("regex", .datum (.bool false)), ("propagate_positions", .datum (.bool false)),
  ("lexer_callbacks", .datum (.record [])), ("maybe_placeholders", .datum (.bool false)),
  ("edit_terminals", .datum .null), ("g_regex_flags", .datum (.int 0)),
  ("use_bytes", .datum (.bool false)), ("import_paths", .datum (.list [])),
  ("source_path", .datum .null), ("_plugins", .datum (.record []))]

def stored : StoredGrammar where
  memo := .ok ()
  settings := .ok settings
  rules := .ok rules
  lexer := .ok ⟨terminals, ignored, .str "contextual"⟩
  parser := .ok ⟨["start"], .str "lalr", table⟩

def parser : Except Error Parser :=
  Parser.load stored []

def tree (s : String) : Except Error Value := do
  (← parser).parse s

end Expression

end AxisLang
