import AxisLang.Proofs.KeptChildren
import AxisLang.Proofs.LexerAgreement

/-! Parsers that differ only in what tokens and rules mean.
A derivation does not depend on the meaning of its tokens and rules as long as all values exist, so what
one meaning makes of a text is compared with what another makes of it along one derivation. The
builders of rules differ in their innermost part and in what is done after it; in between, a tree keeps
the same ones of the values of its symbols. -/
namespace AxisLang

open List (Forall₂)

section Derivations

variable {α β : Type} {rules : List Rule} {sem : Semantics α} {sem' : Semantics β}
  {rel : String → List Token → α → β → Prop} {Xs : List String} {w : List Token} {vs : List α}
  {vs' : List β}

inductive Related (rel : String → List Token → α → β → Prop) :
    List String → List Token → List α → List β → Prop
  | nil : Related rel [] [] [] []
  | cons {X u v v' Xs w vs vs'} (first : rel X u v v') (later : Related rel Xs w vs vs') :
      Related rel (X :: Xs) (u ++ w) (v :: vs) (v' :: vs')

/-- What a derivation needs to go through under another meaning. Only values that are called for
matter: `asked` says which ones, of tokens and of rules. -/
structure Carries (rules : List Rule) (sem : Semantics α) (sem' : Semantics β)
    (rel : String → List Token → α → β → Prop) (known : Token → Prop) (asked : α → Prop) : Prop where
  token : ∀ t v, known t → (∀ r ∈ rules, r.origin.name ≠ t.kind) → sem.onToken t = .ok v →
    ∃ v', sem'.onToken t = .ok v' ∧ rel t.kind [t] v v'
  parts : ∀ r ∈ rules, ∀ u us v, Derives rules sem (r.expansion.map Symbol.name) u us →
    sem.onRule r us = .ok v → asked v → ∀ x ∈ us, asked x
  rule : ∀ r ∈ rules, ∀ u us us' v, Derives rules sem (r.expansion.map Symbol.name) u us →
    Related rel (r.expansion.map Symbol.name) u us us' → sem.onRule r us = .ok v → asked v →
    ∃ v', sem'.onRule r us' = .ok v' ∧ rel r.origin.name u v v'

theorem Derives.carried {known : Token → Prop} {asked : α → Prop}
    (h : Derives rules sem Xs w vs) (carries : Carries rules sem sem' rel known asked)
    (tokens : ∀ t ∈ w, known t) (values : ∀ v ∈ vs, asked v) :
    ∃ vs', Derives rules sem' Xs w vs' ∧ Related rel Xs w vs vs' := by
  induction h with
  | nil => exact ⟨[], .nil, .nil⟩
  | @token t v Xs w vs terminal value _ ih =>
    rw [List.forall_mem_cons] at tokens values
    obtain ⟨v', value', related⟩ := carries.token t v tokens.1 terminal value
    obtain ⟨vs', tail, later⟩ := ih tokens.2 values.2
    exact ⟨v' :: vs', .token terminal value' tail, .cons related later⟩
  | @rule r v us u Xs w vs mem body value _ ihBody ih =>
    rw [List.forall_mem_append] at tokens
    rw [List.forall_mem_cons] at values
    obtain ⟨us', body', parts⟩ := ihBody tokens.1 (carries.parts r mem u us v body value values.1)
    obtain ⟨v', value', related⟩ := carries.rule r mem u us us' v body parts value values.1
    obtain ⟨vs', tail, later⟩ := ih tokens.2 values.2
    exact ⟨v' :: vs', .rule mem body' value' tail, .cons related later⟩

end Derivations

namespace Builder

variable {ss : List Symbol} {vs : List Value}

def keepOne (s : Symbol) (v : Value) : List Value :=
  if s.isFiltered then [] else if s.isInlined then v.children else [v]

def keep (ss : List Symbol) (vs : List Value) : List Value :=
  (List.zipWith keepOne ss vs).flatten

theorem keep_cons (s : Symbol) (ss : List Symbol) (v : Value) (vs : List Value) :
    keep (s :: ss) (v :: vs) = keepOne s v ++ keep ss vs := rfl

/-- Where children take the place of a value, the value is a tree, and no other tree shares it. -/
def Fits (s : Symbol) (v : Value) : Prop :=
  s.isFiltered = false → s.isInlined = true → ∃ l cs sp, v = .tree none l cs sp

theorem kept_eq_keep (one : vs.length = ss.length) :
    Selection.kept false (ss.map fun _ => false) ss vs = keep ss vs := by
  induction ss generalizing vs with
  | nil => rfl
  | cons s ss ih =>
    cases vs with
    | nil => simp at one
    | cons v vs =>
      have same : Selection.contribution false s v = keepOne s v := by
        simp [Selection.contribution, keepOne]
      rw [List.map_cons, Selection.kept, same, ih (by simpa using one), keep_cons]

theorem Fits.exists_tree {s : Symbol} {v : Value} (fits : Fits s v) (inlined : s.isInlined = true) :
    ∃ l cs sp, v = .tree none l cs sp := by
  refine fits ?_ inlined
  cases filtered : s.isFiltered with
  | false => rfl
  | true =>
    rw [Selection.isInlined_of_isFiltered filtered] at inlined
    cases inlined

theorem spliceable_of_fits (fits : Forall₂ Fits ss vs) : Selection.spliceable ss vs = true := by
  induction fits with
  | nil => rfl
  | @cons s v ss vs first _ ih =>
    rw [Selection.spliceable_cons, ih, Bool.and_true]
    cases inlined : s.isInlined with
    | false => rfl
    | true =>
      obtain ⟨l, cs, sp, rfl⟩ := first.exists_tree inlined
      rfl

theorem splicedIds_of_fits (fits : Forall₂ Fits ss vs) : Selection.splicedIds ss vs = [] := by
  induction fits with
  | nil => rfl
  | @cons s v ss vs first _ ih =>
    rw [Selection.splicedIds_cons, ih, List.append_nil]
    cases inlined : s.isInlined with
    | false => rfl
    | true =>
      obtain ⟨l, cs, sp, rfl⟩ := first.exists_tree inlined
      rfl

theorem exists_selection (ss : List Symbol) :
    (∃ sel, Selection.ofRule? ss false false [] = .ok (some sel) ∧
      ∀ vs, Forall₂ Fits ss vs → sel.gather vs = .ok (keep ss vs)) ∨
    Selection.ofRule? ss false false [] = .ok none ∧
      ∀ vs, Forall₂ Fits ss vs → keep ss vs = vs := by
  rcases Selection.ofRule?_cases false false (.inl rfl) with chosen | ⟨chosen, _, whole⟩
  · refine .inl ⟨_, chosen, ?_⟩
    intro vs fits
    have one := fits.length_eq.symm
    rw [Selection.gather_planned false _ (Selection.count_placesOf (.inl rfl)) one
      (by simp [splicedIds_of_fits fits]), spliceable_of_fits fits]
    exact congrArg Except.ok (kept_eq_keep one)
  · refine .inr ⟨chosen, ?_⟩
    intro vs fits
    have one := fits.length_eq.symm
    rw [← kept_eq_keep one, Selection.kept_eq_self one whole]

/-- Whether trees of the rule give way to a single child. -/
def givesWay (r : Rule) : Bool :=
  r.options.expandSingle && (Rule.labelOf? r.alias).isNone

def around (r : Rule) (own : NodeBuilder) : NodeBuilder :=
  match stepsOf {} r with
  | .ok steps => steps.foldl (fun f step => step f) own
  | .error e => fun _ => .error e

theorem exists_steps {r : Rule} (all : r.options.keepAll = false) :
    ∃ steps, stepsOf {} r = .ok steps ∧ ∀ own vs, Forall₂ Fits r.expansion vs →
      steps.foldl (fun f step => step f) own vs =
        (if givesWay r then expandSingle own else own) (keep r.expansion vs) := by
  obtain ⟨sel, chosen, gathers⟩ | ⟨chosen, whole⟩ := exists_selection r.expansion
  · refine ⟨(if givesWay r then [expandSingle] else []) ++ [select sel], ?_, ?_⟩
    · simp [stepsOf, all, chosen, givesWay, bind, Except.bind, pure, Except.pure]
    · intro own vs fits
      cases givesWay r <;> simp [select, gathers vs fits, bind, Except.bind]
  · refine ⟨if givesWay r then [expandSingle] else [], ?_, ?_⟩
    · simp [stepsOf, all, chosen, givesWay, bind, Except.bind, pure, Except.pure]
    · intro own vs fits
      rw [whole vs fits]
      cases givesWay r <;> rfl

theorem around_eq {r : Rule} (all : r.options.keepAll = false) (own : NodeBuilder)
    (fits : Forall₂ Fits r.expansion vs) :
    around r own vs = (if givesWay r then expandSingle own else own) (keep r.expansion vs) := by
  obtain ⟨steps, eq, built⟩ := exists_steps all
  rw [around, eq]
  exact built own vs fits

end Builder

namespace Expression

variable {r : Rule} {vs : List Value}

/-- Whether a symbol only helps to repeat others, so that its trees give way to their children. -/
def isHelper (X : String) : Bool :=
  rules.any fun r => r.origin.name == X && r.origin.isInlined

theorem isHelper_of_terminal {X : String} (terminal : ∀ r ∈ rules, r.origin.name ≠ X) :
    isHelper X = false := by
  rw [isHelper, List.any_eq_false]
  intro r mem origin
  exact terminal r mem (beq_iff_eq.mp (Bool.and_eq_true_iff.mp origin).1)

structure Regular (r : Rule) : Prop where
  dropsMarks : r.options.keepAll = false
  label : r.label.name = r.origin.name
  /-- A rule that gives way to a single child has one symbol, whose value it keeps. -/
  single : Builder.givesWay r = true → ∃ s, r.expansion = [s] ∧ s.isFiltered = false ∧
    s.isInlined = false ∧ isHelper r.origin.name = false
  inlined : ∀ s ∈ r.expansion, s.isInlined = isHelper s.name
  /-- What trees leave out are tokens other than names. -/
  filtered : ∀ s ∈ r.expansion, s.isFiltered = true → s.name ≠ TokenKind.name.terminal ∧
    ∀ r ∈ rules, r.origin.name ≠ s.name

def isRegular (r : Rule) : Bool :=
  !r.options.keepAll && r.label.name == r.origin.name &&
    (!Builder.givesWay r || r.expansion.length == 1 && !isHelper r.origin.name &&
      r.expansion.all fun s => !s.isFiltered && !s.isInlined) &&
    r.expansion.all fun s => s.isInlined == isHelper s.name &&
      (!s.isFiltered || s.name != TokenKind.name.terminal && rules.all fun r => r.origin.name != s.name)

theorem rules_isRegular : rules.all isRegular = true := by decide +kernel

theorem regular (mem : r ∈ rules) : Regular r := by
  have checked := List.all_eq_true.mp rules_isRegular r mem
  simp only [isRegular, Bool.and_eq_true, Bool.or_eq_true, Bool.not_eq_true', beq_iff_eq, bne_iff_ne,
    List.all_eq_true] at checked
  obtain ⟨⟨⟨marks, label⟩, single⟩, symbols⟩ := checked
  refine ⟨marks, label, fun gives => ?_, fun s mem => (symbols s mem).1, fun s mem filtered => ?_⟩
  · obtain none | ⟨⟨length, helper⟩, kept⟩ := single
    · exact absurd gives (by simp [none])
    · obtain ⟨s, same⟩ := List.length_eq_one_iff.mp length
      exact ⟨s, same, (kept s (by simp [same])).1, (kept s (by simp [same])).2, helper⟩
  · obtain none | kept := (symbols s mem).2
    · exact absurd filtered (by simp [none])
    · exact kept

theorem nodeOf_eq (r : Rule) : nodeOf r = Builder.around r (Builder.makeTree r.label) := rfl

theorem around_single (mem : r ∈ rules) (gives : Builder.givesWay r = true) :
    ∃ s, r.expansion = [s] ∧ isHelper s.name = false ∧ isHelper r.origin.name = false ∧
      ∀ own v, Builder.around r own [v] = .ok v := by
  have known := regular mem
  obtain ⟨s, one, kept, inlined, helper⟩ := known.single gives
  refine ⟨s, one, (known.inlined s (by simp [one])).symm.trans inlined, helper, fun own v => ?_⟩
  have fits : Forall₂ Builder.Fits r.expansion [v] := by
    rw [one]
    exact .cons (fun _ spliced => absurd spliced (by simp [inlined])) .nil
  rw [Builder.around_eq known.dropsMarks own fits, gives, one]
  simp [Builder.keep, Builder.keepOne, kept, inlined, Builder.expandSingle]

theorem around_tree (mem : r ∈ rules) (stays : Builder.givesWay r = false) (own : NodeBuilder)
    (fits : Forall₂ Builder.Fits r.expansion vs) :
    Builder.around r own vs = own (Builder.keep r.expansion vs) := by
  rw [Builder.around_eq (regular mem).dropsMarks own fits, stays]
  rfl

theorem fits_of_related {α : Type} {rel : String → List Token → α → Value → Prop}
    (helper : ∀ {X u v v'}, rel X u v v' → isHelper X = true → ∃ l cs sp, v' = .tree none l cs sp)
    {ss : List Symbol} (inlined : ∀ s ∈ ss, s.isInlined = isHelper s.name) {w : List Token} {us : List α}
    (h : Related rel (ss.map Symbol.name) w us vs) : Forall₂ Builder.Fits ss vs := by
  induction ss generalizing w us vs with
  | nil => cases h; exact .nil
  | cons s ss ih =>
    rw [List.forall_mem_cons] at inlined
    cases h with
    | cons first later =>
      exact .cons (fun _ spliced => helper first (inlined.1 ▸ spliced)) (ih inlined.2 later)

theorem Standard.parse_of_derives {p : Parser} {cl : ContextualLexer} (h : Standard p cl) {s : String}
    {ls : List (TokenKind × List Char)} (cut : Cut s.toList ls) {v : Value}
    (derived : Derives rules p.semantics ["start"] (tokensOf {} ls) [v]) : p.parse s = .ok v := by
  have accepted : (runUnder p.semantics).run (.tokens (tokensOf {} ls)) ⟨⟨[27], []⟩, {}, none⟩ = .ok v :=
    RunConf.run_of_derives (c := runUnder p.semantics) (f := frame) table_isSound rfl rfl
      endKind_notMem_symbols outlook_isComplete rfl derived (kind_tokensOf {} ls) kinds_notMem_symbols
  have matched : RunConf.Matches frame (runUnder p.semantics) cl ⟨Text.ofString s, {}, none⟩
      ⟨⟨[27], []⟩, {}, none⟩ :=
    RunConf.run_matches table_isSound rfl rfl h.suited terminal_notMem_symbols rfl .start
  have rest : LexState.rest ⟨Text.ofString s, {}, none⟩ = s.toList := rfl
  rw [RunConf.Matches, rest] at matched
  rw [h.parse_eq]
  obtain ⟨ls', cut', same⟩ | ⟨e, _, _, others⟩ := matched
  · rw [same, cut'.unique cut, accepted]
    rfl
  · obtain ⟨e', refused⟩ := others ls cut
    exact absurd (accepted.symm.trans refused) (by simp)

theorem derives_of_tree {s : String} {v : Value} (h : tree s = .ok v) :
    ∃ ls, Cut s.toList ls ∧ Derives rules semantics ["start"] (tokensOf {} ls) [v] := by
  obtain ⟨ls, cut, same⟩ | ⟨e, failed, _⟩ := tree_matches s
  · refine ⟨ls, cut, (run_tokens_iff (kind_tokensOf {} ls)).mp ?_⟩
    rw [h] at same
    cases run : runConf.run (.tokens (tokensOf {} ls)) atStart with
    | ok v' => rw [run] at same; rw [Except.ok.inj same]
    | error e => rw [run] at same; exact absurd same (by simp [Except.mapError])
  · rw [h] at failed
    exact absurd failed (by simp)

theorem Standard.parse_carried {p : Parser} {cl : ContextualLexer} (h : Standard p cl)
    {rel : String → List Token → Value → Value → Prop} {known : Token → Prop} {asked : Value → Prop}
    (carries : Carries rules semantics p.semantics rel known asked) {s : String} {v : Value}
    (accepted : tree s = .ok v) (tokens : ∀ ls, Cut s.toList ls → ∀ x ∈ tokensOf {} ls, known x)
    (value : asked v) :
    ∃ v' ls, p.parse s = .ok v' ∧ Cut s.toList ls ∧ rel "start" (tokensOf {} ls) v v' := by
  obtain ⟨ls, cut, derived⟩ := derives_of_tree accepted
  obtain ⟨vs', derived', related⟩ := derived.carried carries (tokens ls cut) (by simpa using value)
  -- one start symbol, so one value on either side
  generalize whole : tokensOf {} ls = w at derived' related
  cases related with
  | cons first later =>
    cases later with
    | nil =>
      rw [List.append_nil] at whole
      rw [List.append_nil, ← whole] at derived'
      exact ⟨_, ls, h.parse_of_derives cut derived', cut, whole ▸ first⟩

end Expression

end AxisLang
