import AxisLang.Proofs.TextRun

/-! The parse table of expressions passes the checks for soundness and completeness.
The checks need data that the table does not hold: a weight for each state that falls with every
reduction on the same level, the items of each state, and what each symbol can begin with and be
followed by. The loaded parser has this table, lexers that suit it, and builders of plain trees. -/
namespace AxisLang

namespace Expression

def weights : List (Nat × Nat) := [
  (15, 9), (31, 9), (30, 8), (34, 8), (36, 7), (21, 7), (22, 6), (25, 7), (3, 6), (7, 6), (5, 3),
  (6, 60)]

def frame : Table.Frame := ⟨rules, 27, 0, "start", fun q => (weights.lookup q).getD 0⟩

def axisItems : List (Rule × Nat) := [
  (nameRule, 0), (ellipsisRule, 0), (axisOfName, 0), (axisOfEllipsis, 0)]

def entryItems : List (Rule × Nat) :=
  [(productRule, 0), (itemOfProduct, 0), (itemOfAxis, 0)] ++ axisItems

def axesItems : List (Rule × Nat) :=
  [(axesOfMany, 0), (axesOfOne, 0)] ++ entryItems

def variableItems : List (Rule × Nat) := [
  (nameRule, 0), (variableWithAxes, 0), (variableOfName, 0), (variableOfAxes, 0)]

/-- The rules that each state is in the middle of, with the number of symbols behind it. -/
def stateItems : List (Nat × List (Rule × Nat)) := [
  (1, (variablesFirst, 1) :: variableItems),
  (2, [(variableOfAxes, 2)]),
  (3, [(inputsOfMany, 1), (inputsOfOne, 1), (variablesFirst, 0), (variablesMore, 0)]),
  (4, [(itemsMore, 3)]),
  (5, [(startRule, 1)]),
  (6, [(einsumRule, 2), (outputOfVariable, 0), (outputAbsent, 0)] ++ variableItems),
  (7, [(outputOfVariable, 1)]),
  (8, [(variableOfAxes, 3)]),
  (9, [(einsumRule, 3)]),
  (10, [(variableWithAxes, 4)]),
  (11, [(einsumRule, 1)]),
  (12, (variablesMore, 2) :: variableItems),
  (13, [(variableWithAxes, 3)]),
  (14, [(factorsMore, 3)]),
  (15, [(nameRule, 1)]),
  (16, [(factorsFirst, 2)]),
  (17, (variableWithAxes, 2) :: axesItems),
  (18, [(variablesFirst, 2)]),
  (19, [(inputsOfMany, 2), (variablesMore, 1)]),
  (20, (itemsMore, 2) :: entryItems),
  (21, [(itemOfProduct, 1)]),
  (22, [(axesOfMany, 1), (axesOfOne, 1), (itemsFirst, 0), (itemsMore, 0)]),
  (23, (factorsMore, 2) :: axisItems),
  (24, (variableOfAxes, 1) :: axesItems),
  (25, [(variableWithAxes, 1), (variableOfName, 1)]),
  (26, (factorsFirst, 1) :: axisItems),
  (27, [(startRule, 0), (einsumRule, 0), (inputsOfMany, 0), (inputsOfOne, 0)] ++ variableItems),
  (28, [(productRule, 2), (factorsMore, 1)]),
  (29, [(itemsFirst, 2)]),
  (30, [(axisOfName, 1)]),
  (31, [(ellipsisRule, 1)]),
  (32, [(variablesMore, 3)]),
  (33, (itemsFirst, 1) :: entryItems),
  (34, [(axisOfEllipsis, 1)]),
  (35, [(axesOfMany, 2), (itemsMore, 1)]),
  (36, [(productRule, 1), (itemOfAxis, 1), (factorsFirst, 0), (factorsMore, 0)])]

def kinds : List String :=
  ["__ANON_0", "__ANON_1", "STAR", "COMMA", "LSQB", "RSQB", "__ANON_2"]

/-- For each symbol with rules, the kinds it can begin with and the kinds that can follow it. -/
def symbolFacts : List (String × List String × List String) := [
  ("name", ["__ANON_0"], ["LSQB", "COMMA", "__ANON_2", "$END", "RSQB", "STAR"]),
  ("ellipsis", ["__ANON_1"], ["RSQB", "STAR", "COMMA"]),
  ("axis_name", ["__ANON_0", "__ANON_1"], ["RSQB", "STAR", "COMMA"]),
  ("product_axis", ["__ANON_0", "__ANON_1"], ["RSQB", "COMMA"]),
  ("axis_name_or_product", ["__ANON_0", "__ANON_1"], ["RSQB", "COMMA"]),
  ("axes", ["__ANON_0", "__ANON_1"], ["RSQB"]),
  ("variable", ["__ANON_0", "LSQB"], ["COMMA", "__ANON_2", "$END"]),
  ("input_variables", ["__ANON_0", "LSQB"], ["__ANON_2"]),
  ("output_variable", ["__ANON_0", "LSQB"], ["$END"]),
  ("einsum", ["__ANON_0", "LSQB"], ["$END"]),
  ("start", ["__ANON_0", "LSQB"], ["$END"]),
  ("__product_axis_plus_0", ["STAR"], ["RSQB", "STAR", "COMMA"]),
  ("__axes_plus_1", ["COMMA"], ["RSQB", "COMMA"]),
  ("__input_variables_star_2", ["COMMA"], ["__ANON_2", "COMMA"])]

def outlook : Outlook where
  states := stateItems
  opens X := ((symbolFacts.lookup X).map (·.1)).getD [X]
  follows X := ((symbolFacts.lookup X).map (·.2)).getD []
  skips X := X == "output_variable"

theorem table_isSound : table.isSound frame = true := by decide +kernel

theorem outlook_isComplete : outlook.isComplete table frame kinds = true := by decide +kernel

/-- The builder of a rule's trees: children are selected, a single one may stand for the tree. -/
def nodeOf (r : Rule) : NodeBuilder :=
  match Builder.stepsOf {} r with
  | .ok steps => steps.foldl (fun f step => step f) (Builder.makeTree r.label)
  | .error e => fun _ => .error e

def semantics : Semantics Value :=
  ⟨Parser.onToken none terminals, Parser.onRule (rules.map fun r => (r, nodeOf r))⟩

/-- Whether a parser has the table of expressions, lexers that suit it and no layout. -/
def isStandard (p : Parser) : Bool :=
  p.start == ["start"] && p.table == table && p.layout.isNone &&
    match p.lexing with
    | .contextual cl => cl.isSuited table
    | _ => false

structure Standard (p : Parser) (cl : ContextualLexer) : Prop where
  start : p.start = ["start"]
  tables : p.table = table
  layout : p.layout = none
  lexing : p.lexing = .contextual cl
  suited : cl.isSuited table = true

theorem exists_standard {p : Parser} (h : isStandard p = true) : ∃ cl, Standard p cl := by
  simp only [isStandard, Bool.and_eq_true, beq_iff_eq, Option.isNone_iff_eq_none] at h
  obtain ⟨⟨⟨start, tables⟩, layout⟩, lexing⟩ := h
  cases kind : p.lexing with
  | contextual cl => rw [kind] at lexing; exact ⟨cl, start, tables, layout, kind, lexing⟩
  | plain => rw [kind] at lexing; exact absurd lexing (by simp)
  | none => rw [kind] at lexing; exact absurd lexing (by simp)

def runUnder (sem : Semantics Value) : RunConf Value := ⟨table, sem, 0, none⟩

theorem Standard.parse_eq {p : Parser} {cl : ContextualLexer} (h : Standard p cl) (s : String) :
    p.parse s = ((runUnder p.semantics).run (.text cl ⟨Text.ofString s, {}, none⟩)
      ⟨⟨[27], []⟩, {}, none⟩).mapError RunFailure.error := by
  have first : table.starts.lookup "start" = some 27 := by decide
  have final : table.ends.lookup "start" = some 0 := by decide
  simp only [Parser.parse, Parser.answer, Parser.chooseStart, h.start, Parser.streamOf, h.lexing,
    Parser.runFrom, h.tables, h.layout, first, final, runUnder]
  cases RunConf.run ⟨table, p.semantics, 0, none⟩ (.text cl ⟨Text.ofString s, {}, none⟩)
    ⟨⟨[27], []⟩, {}, none⟩ <;> rfl

theorem parser_isStandard : parser.toOption.any isStandard = true := by decide +kernel

theorem parser_semantics : parser.toOption.map Parser.semantics = some semantics := by
  with_unfolding_all rfl

theorem exists_of_isStandard {result : Except Error Parser} {sem : Semantics Value}
    (checked : result.toOption.any isStandard = true)
    (meaning : result.toOption.map Parser.semantics = some sem) :
    ∃ p cl, result = .ok p ∧ Standard p cl ∧ p.semantics = sem := by
  cases result with
  | error e => exact absurd checked (by simp [Except.toOption])
  | ok p =>
    obtain ⟨cl, standard⟩ := exists_standard checked
    exact ⟨p, cl, rfl, standard, Option.some.inj meaning⟩

theorem parser_loads : ∃ p cl, parser = .ok p ∧ Standard p cl ∧ p.semantics = semantics :=
  exists_of_isStandard parser_isStandard parser_semantics

theorem tree_eq : ∃ cl : ContextualLexer, cl.isSuited table = true ∧ ∀ s,
    tree s = (RunConf.run ⟨table, semantics, 0, none⟩ (.text cl ⟨Text.ofString s, {}, none⟩)
      ⟨⟨[27], []⟩, {}, none⟩).mapError RunFailure.error := by
  obtain ⟨p, cl, loaded, standard, meaning⟩ := parser_loads
  refine ⟨cl, standard.suited, fun s => ?_⟩
  have parsed := standard.parse_eq s
  rw [meaning] at parsed
  rw [tree, loaded]
  exact parsed

end Expression

end AxisLang
