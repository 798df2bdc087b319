import AxisLang.Proofs.Acceptance
import AxisLang.Proofs.Letters
import AxisLang.Proofs.Results

/-! What parsing makes of an expression.
The variables of a phrase are read off its tree: axis names in lower case, variable names as they are.
Which error a text leads to, or that it leads to none, is decided first by the grammar, then by
ellipses inside products, then by the number of axis names, and last by the output. -/
namespace AxisLang

variable {ν μ : Type}

def Factor.name? : Factor ν → Option ν
  | .name n => some n
  | .dots => none

namespace Entry

def isMixed : Entry ν → Bool
  | .single _ => false
  | .product x y more => (x :: y :: more).any fun f => f.name?.isNone

def axis : Entry String → Axis
  | .single (.name n) => .named (lowered n)
  | .single .dots => .ellipsis
  | .product x y more => .product (((x :: y :: more).filterMap Factor.name?).map lowered)

end Entry

namespace Argument

def isMixed : Argument ν → Bool
  | .bare _ => false
  | .indexed _ x more => (x :: more).any Entry.isMixed

def toVariable : Argument String → Variable
  | .bare n => ⟨some n, []⟩
  | .indexed n x more => ⟨n, (x :: more).map Entry.axis⟩

end Argument

namespace Phrase

/-- Whether a product anywhere in the expression has an ellipsis as a factor. -/
def isMixed (e : Phrase ν) : Bool :=
  (e.first :: e.more).any Argument.isMixed || e.output.any Argument.isMixed

def inputs (e : Phrase String) : List Variable :=
  (e.first :: e.more).map Argument.toVariable

def result (e : Phrase String) : Option Variable :=
  e.output.map Argument.toVariable

end Phrase

theorem Entry.isMixed_map (f : ν → μ) (x : Entry ν) : (x.map f).isMixed = x.isMixed := by
  have factor (x : Factor ν) : (x.map f).name?.isNone = x.name?.isNone := by cases x <;> rfl
  cases x <;> simp [map, isMixed, factor, List.any_map, Function.comp_def]

theorem Argument.isMixed_map (f : ν → μ) (x : Argument ν) : (x.map f).isMixed = x.isMixed := by
  cases x <;> simp [map, isMixed, Entry.isMixed_map, List.any_map, Function.comp_def]

theorem Phrase.isMixed_map (f : ν → μ) (e : Phrase ν) : (e.map f).isMixed = e.isMixed := by
  obtain ⟨first, more, _ | out⟩ := e <;>
    simp [map, isMixed, Argument.isMixed_map, List.any_map, Function.comp_def]

namespace Variable

theorem firstText_factor (x : Factor Token) :
    firstText x.tree = if x.name?.isNone then .error (.fault .index) else
      .ok ((x.name?.map Token.word).getD "") := by
  cases x <;> rfl

theorem names_of_all (xs : List (Factor Token)) (named : xs.any (fun x => x.name?.isNone) = false) :
    ((xs.map (Factor.map Token.word)).filterMap Factor.name?) =
      xs.map fun x => (x.name?.map Token.word).getD "" := by
  induction xs with
  | nil => rfl
  | cons x xs ih =>
    rw [List.any_cons, Bool.or_eq_false_iff] at named
    cases x with
    | name n => simp [Factor.map, Factor.name?, ih named.2]
    | dots => exact absurd named.1 (by decide)

theorem axisOfTree_entry (x : Entry Token) :
    axisOfTree x.tree = if x.isMixed then .error (.fault .index) else
      .ok (some (x.map Token.word).axis) := by
  cases x with
  | single x => cases x <;> rfl
  | product x y more =>
    have each (f : Factor Token) : (do return lowered (← firstText f.tree)) =
        if f.name?.isNone then Except.error (ExprError.fault .index) else
          .ok (lowered ((f.name?.map Token.word).getD "")) := by
      rw [firstText_factor]
      cases f <;> rfl
    have all := mapM_eq_ite each (x :: y :: more)
    have start : axisOfTree (Entry.product x y more).tree =
        (do return some (.product (← (x :: y :: more).mapM fun f =>
          do return lowered (← firstText f.tree)))) := by
      rw [Entry.tree, ruleNode, axisOfTree, if_neg (by decide), if_pos rfl, List.mapM_map]
      rfl
    have mixed : (Entry.product x y more).isMixed =
        (x :: y :: more).any fun f => f.name?.isNone := rfl
    rw [start, all, mixed]
    cases bad : (x :: y :: more).any fun f => f.name?.isNone with
    | true => rfl
    | false =>
      have names := names_of_all _ bad
      simp only [List.map_cons] at names
      simp only [Entry.map, Entry.axis, names, List.map_map, List.map_cons]
      rfl

theorem axesOfTree_entries (l : Label) (xs : List (Entry Token)) :
    axesOfTree (.tree none l (xs.map Entry.tree) {}) =
      if xs.any Entry.isMixed then .error (.fault .index) else
        .ok ((xs.map (Entry.map Token.word)).map Entry.axis) := by
  have all : (xs.map Entry.tree).mapM axisOfTree =
      if xs.any Entry.isMixed then .error (.fault .index) else
        .ok (xs.map fun x => some (x.map Token.word).axis) := by
    rw [List.mapM_map]
    exact mapM_eq_ite axisOfTree_entry xs
  rw [axesOfTree, all]
  cases xs.any Entry.isMixed with
  | true => rfl
  | false =>
    have kept : (xs.map fun x => some (x.map Token.word).axis).filterMap id =
        (xs.map (Entry.map Token.word)).map Entry.axis := by
      simp [List.filterMap_map, List.map_map, Function.comp_def]
    exact congrArg Except.ok kept

theorem ofTree_argument (x : Argument Token) :
    ofTree x.tree = if x.isMixed then .error (.fault .index) else
      .ok (x.map Token.word).toVariable := by
  cases x with
  | bare n => rfl
  | indexed n x more =>
    have axes := axesOfTree_entries ⟨"axes", true⟩ (x :: more)
    have mixed : (Argument.indexed n x more).isMixed = (x :: more).any Entry.isMixed := rfl
    rw [mixed]
    cases n with
    | none =>
      have start : ofTree (Argument.indexed none x more).tree =
          (do return ⟨none, ← axesOfTree (.tree none ⟨"axes", true⟩ ((x :: more).map Entry.tree) {})⟩) :=
        rfl
      rw [start, axes]
      cases (x :: more).any Entry.isMixed <;> rfl
    | some n =>
      have start : ofTree (Argument.indexed (some n) x more).tree =
          (do return ⟨some n.word,
            ← axesOfTree (.tree none ⟨"axes", true⟩ ((x :: more).map Entry.tree) {})⟩) := rfl
      rw [start, axes]
      cases (x :: more).any Entry.isMixed <;> rfl

end Variable

namespace Spec

theorem ofTree_phrase (e : Phrase Token) :
    ofTree e.tree = if e.isMixed then .error (.fault .index) else
      ofVariables (e.map Token.word).inputs (e.map Token.word).result := by
  have inputs : ((e.first :: e.more).map Argument.tree).mapM Variable.ofTree =
      if (e.first :: e.more).any Argument.isMixed then .error (.fault .index) else
        .ok (e.map Token.word).inputs := by
    have same : (e.map Token.word).inputs =
        (e.first :: e.more).map fun x => (x.map Token.word).toVariable := by
      simp [Phrase.inputs, Phrase.map, List.map_map, Function.comp_def]
    rw [List.mapM_map, same]
    exact mapM_eq_ite Variable.ofTree_argument _
  obtain ⟨first, more, _ | out⟩ := e
  · have start : ofTree (Phrase.tree ⟨first, more, none⟩) =
        ((first :: more).map Argument.tree).mapM Variable.ofTree >>= fun ins =>
          ofVariables ins none := rfl
    rw [start, inputs, Phrase.isMixed]
    cases (first :: more).any Argument.isMixed <;> rfl
  · have start : ofTree (Phrase.tree ⟨first, more, some out⟩) =
        ((first :: more).map Argument.tree).mapM Variable.ofTree >>= fun ins =>
          Variable.ofTree out.tree >>= fun v => ofVariables ins (some v) := rfl
    rw [start, inputs, Phrase.isMixed, Variable.ofTree_argument, Option.any_some]
    cases (first :: more).any Argument.isMixed <;> cases out.isMixed <;> rfl

end Spec

namespace Expression

/-- The text spells the phrase. -/
def Reads (s : String) (e : Phrase String) : Prop :=
  ∃ ls, Cut s.toList ls ∧ e.spell = pieces ls

theorem parse_of_reads {s : String} {e : Phrase String} (h : Reads s e) :
    Spec.parse s = if e.isMixed then .error (.fault .index) else
      Spec.ofVariables e.inputs e.result := by
  obtain ⟨ls, cut, spelled⟩ := h
  rw [← map_tokenPieces {}] at spelled
  obtain ⟨e, rfl, same⟩ := lifts_phrase Token.word e _ spelled
  have tree : tree s = .ok e.tree := tree_eq_ok_iff.mpr ⟨ls, cut, e, same, rfl⟩
  rw [Spec.parse, tree, Phrase.isMixed_map]
  exact Spec.ofTree_phrase e

theorem isExpression_iff_reads {s : String} : IsExpression s ↔ ∃ e, Reads s e := by
  have spelled (ls : List (TokenKind × List Char)) :
      Generates (.rule .start) ((ls.map Prod.fst).filter fun k => !k.isLayout) ↔
        ∃ e : Phrase String, e.spell = pieces ls := by
    have kinds : (pieces ls).map Piece.kind = (ls.map Prod.fst).filter fun k => !k.isLayout := by
      rw [← kind_tokenPieces {}, ← map_tokenPieces {}, List.map_map]
      exact List.map_congr_left fun p _ => p.kind_map _
    rw [← kinds]
    exact Spelled.phrase (pieces ls)
  simp only [IsExpression, spelled, Reads]
  constructor
  · rintro ⟨ls, cut, e, same⟩
    exact ⟨e, ls, cut, same⟩
  · rintro ⟨e, ls, cut, same⟩
    exact ⟨ls, cut, e, same⟩

theorem parse_of_not_isExpression {s : String} (h : ¬ IsExpression s) :
    ∃ r, Spec.parse s = .error (.parsing r) ∧ Parser.isReport r = true := by
  rw [Spec.parse]
  cases result : tree s with
  | ok v =>
    obtain ⟨ls, cut, e, spelled, _⟩ := tree_eq_ok_iff.mp result
    exact absurd (isExpression_iff.mpr ⟨ls, cut, e, spelled⟩) h
  | error e => exact ⟨e, rfl, isReport_of_tree result⟩

end Expression

namespace Phrase

def inputNames (e : Phrase String) : List String :=
  Spec.inputNames e.inputs

def outputNames (e : Phrase String) : List String :=
  Spec.outputNames e.result

inductive Outcome (e : Phrase String) : Except ExprError Spec → Prop
  | mixed (h : e.isMixed = true) : Outcome e (.error (.fault .index))
  | tooMany {n} (h : e.isMixed = false) (full : e.inputNames.eraseDups[52]? = some n) :
      Outcome e (.error (.tooManyAxes n 52))
  | notFound {n} (h : e.isMixed = false) (few : e.inputNames.eraseDups.length ≤ 52)
      (missing : e.outputNames.find? (fun n => !e.inputNames.contains n) = some n) :
      Outcome e (.error (.axisNotFound n))
  | returned {spec} (h : e.isMixed = false) (few : e.inputNames.eraseDups.length ≤ 52)
      (known : ∀ n ∈ e.outputNames, n ∈ e.inputNames) : Outcome e (.ok spec)

end Phrase

namespace Expression

theorem outcome_of_reads {s : String} {e : Phrase String} (h : Reads s e) :
    e.Outcome (Spec.parse s) := by
  rw [parse_of_reads h]
  cases mixed : e.isMixed with
  | true => exact .mixed mixed
  | false =>
    rw [if_neg (by simp), Spec.ofVariables_eq]
    cases full : (Spec.inputNames e.inputs).eraseDups[52]? with
    | some n => exact .tooMany mixed full
    | none =>
      have few := List.getElem?_eq_none_iff.mp full
      dsimp only
      cases missing : (Spec.outputNames e.result).find? fun n =>
          !(Spec.inputNames e.inputs).contains n with
      | some n => exact .notFound mixed few missing
      | none =>
        refine .returned mixed few fun n mem => ?_
        have found := List.find?_eq_none.mp missing n mem
        rwa [Bool.not_eq_true, Bool.not_eq_false', List.contains_iff_mem] at found

theorem exists_reads (s : String) (h : ∀ r, Spec.parse s ≠ .error (.parsing r)) :
    ∃ e, Reads s e := by
  rw [← isExpression_iff_reads]
  by_contra language
  obtain ⟨r, eq, _⟩ := parse_of_not_isExpression language
  exact h r eq

theorem not_parsing_of_reads {s : String} {e : Phrase String} (h : Reads s e) (r : Error) :
    Spec.parse s ≠ .error (.parsing r) := by
  intro eq
  have outcome := outcome_of_reads h
  rw [eq] at outcome
  cases outcome

theorem parse_index_iff (s : String) :
    Spec.parse s = .error (.fault .index) ↔ ∃ e, Reads s e ∧ e.isMixed = true := by
  constructor
  · intro eq
    obtain ⟨e, reads⟩ := exists_reads s (by simp [eq])
    have outcome := outcome_of_reads reads
    rw [eq] at outcome
    cases outcome with
    | mixed h => exact ⟨e, reads, h⟩
  · rintro ⟨e, reads, mixed⟩
    rw [parse_of_reads reads, if_pos mixed]

theorem parse_tooMany_iff (s n : String) (i : Int) :
    Spec.parse s = .error (.tooManyAxes n i) ↔ ∃ e, Reads s e ∧ e.isMixed = false ∧
      e.inputNames.eraseDups[52]? = some n ∧ i = 52 := by
  constructor
  · intro eq
    obtain ⟨e, reads⟩ := exists_reads s (by simp [eq])
    have outcome := outcome_of_reads reads
    rw [eq] at outcome
    cases outcome with
    | tooMany h full => exact ⟨e, reads, h, full, rfl⟩
  · rintro ⟨e, reads, plain, full, rfl⟩
    rw [parse_of_reads reads, if_neg (by simp [plain]), Spec.ofVariables_eq]
    rw [Phrase.inputNames] at full
    rw [full]

theorem parse_notFound_iff (s n : String) :
    Spec.parse s = .error (.axisNotFound n) ↔ ∃ e, Reads s e ∧ e.isMixed = false ∧
      e.inputNames.eraseDups.length ≤ 52 ∧
      e.outputNames.find? (fun n => !e.inputNames.contains n) = some n := by
  constructor
  · intro eq
    obtain ⟨e, reads⟩ := exists_reads s (by simp [eq])
    have outcome := outcome_of_reads reads
    rw [eq] at outcome
    cases outcome with
    | notFound h few missing => exact ⟨e, reads, h, few, missing⟩
  · rintro ⟨e, reads, plain, few, missing⟩
    rw [parse_of_reads reads, if_neg (by simp [plain]), Spec.ofVariables_eq]
    rw [Phrase.inputNames] at few
    rw [Phrase.inputNames, Phrase.outputNames] at missing
    rw [List.getElem?_eq_none few, missing]

theorem parse_ok_iff (s : String) :
    (∃ spec, Spec.parse s = .ok spec) ↔ ∃ e, Reads s e ∧ e.isMixed = false ∧
      e.inputNames.eraseDups.length ≤ 52 ∧ ∀ n ∈ e.outputNames, n ∈ e.inputNames := by
  constructor
  · rintro ⟨spec, eq⟩
    obtain ⟨e, reads⟩ := exists_reads s (by simp [eq])
    have outcome := outcome_of_reads reads
    rw [eq] at outcome
    cases outcome with
    | returned h few known => exact ⟨e, reads, h, few, known⟩
  · rintro ⟨e, reads, plain, few, known⟩
    rw [parse_of_reads reads, if_neg (by simp [plain]), Spec.ofVariables_of_known few known]
    exact ⟨_, rfl⟩

theorem reads_of_parse {s : String} {spec : Spec} (h : Spec.parse s = .ok spec) :
    ∃ e, Reads s e ∧ e.inputNames.eraseDups.length ≤ 52 ∧
      (∀ n ∈ e.outputNames, n ∈ e.inputNames) ∧
      spec = ⟨Spec.withNames e.inputs, e.result, .ofNames e.inputNames.eraseDups⟩ := by
  obtain ⟨e, reads, plain, few, known⟩ := (parse_ok_iff s).mp ⟨spec, h⟩
  refine ⟨e, reads, few, known, ?_⟩
  rw [parse_of_reads reads, if_neg (by simp [plain]), Spec.ofVariables_of_known few known] at h
  exact (Except.ok.inj h).symm

theorem Reads.parse_eq {s : String} {e : Phrase String} {p : Spec} (reads : Reads s e)
    (parsed : Spec.parse s = .ok p) :
    p = ⟨Spec.withNames e.inputs, e.result, .ofNames e.inputNames.eraseDups⟩ := by
  have outcome := outcome_of_reads reads
  rw [parsed] at outcome
  cases outcome with
  | returned plain few known =>
    rw [parse_of_reads reads, if_neg (by simp [plain]), Spec.ofVariables_of_known few known] at parsed
    exact (Except.ok.inj parsed).symm

/-- Every text has exactly one outcome. A text outside the language is reported; otherwise an ellipsis
inside a product is an index fault, a name beyond the fifty-two letters is one too many, an output name
that no input has is not found, and in every other case there is a result. -/
theorem parse_classified (s : String) :
    ((∃ r, Spec.parse s = .error (.parsing r) ∧ Parser.isReport r = true) ↔ ¬ IsExpression s) ∧
    (Spec.parse s = .error (.fault .index) ↔ ∃ e, Reads s e ∧ e.isMixed = true) ∧
    (∀ n i, Spec.parse s = .error (.tooManyAxes n i) ↔ ∃ e, Reads s e ∧ e.isMixed = false ∧
      e.inputNames.eraseDups[52]? = some n ∧ i = 52) ∧
    (∀ n, Spec.parse s = .error (.axisNotFound n) ↔ ∃ e, Reads s e ∧ e.isMixed = false ∧
      e.inputNames.eraseDups.length ≤ 52 ∧
      e.outputNames.find? (fun n => !e.inputNames.contains n) = some n) ∧
    ((∃ spec, Spec.parse s = .ok spec) ↔ ∃ e, Reads s e ∧ e.isMixed = false ∧
      e.inputNames.eraseDups.length ≤ 52 ∧ ∀ n ∈ e.outputNames, n ∈ e.inputNames) ∧
    ((∃ r, Spec.parse s = .error (.parsing r) ∧ Parser.isReport r = true) ∨
      Spec.parse s = .error (.fault .index) ∨ (∃ n, Spec.parse s = .error (.tooManyAxes n 52)) ∨
      (∃ n, Spec.parse s = .error (.axisNotFound n)) ∨ ∃ spec, Spec.parse s = .ok spec) := by
  refine ⟨⟨?_, parse_of_not_isExpression⟩, parse_index_iff s, parse_tooMany_iff s,
    parse_notFound_iff s, parse_ok_iff s, ?_⟩
  · rintro ⟨r, eq, _⟩ language
    obtain ⟨e, reads⟩ := isExpression_iff_reads.mp language
    exact not_parsing_of_reads reads r eq
  · by_cases language : IsExpression s
    · obtain ⟨e, reads⟩ := isExpression_iff_reads.mp language
      have outcome := outcome_of_reads reads
      generalize Spec.parse s = result at outcome ⊢
      cases outcome with
      | mixed => exact .inr (.inl rfl)
      | tooMany => exact .inr (.inr (.inl ⟨_, rfl⟩))
      | notFound => exact .inr (.inr (.inr (.inl ⟨_, rfl⟩)))
      | returned => exact .inr (.inr (.inr (.inr ⟨_, rfl⟩)))
    · exact .inl (parse_of_not_isExpression language)

end Expression

end AxisLang
