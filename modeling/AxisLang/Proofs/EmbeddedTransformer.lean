import AxisLang.Handler.Task
import AxisLang.Proofs.Edits
import AxisLang.Proofs.Meanings
import AxisLang.Proofs.ShapeCheck

/-! Transforming while parsing.
A parser can be given a transformer, whose handlers then take the place of the builders of trees: they
are called while the text is parsed, and no tree is built. Along a derivation, the value of a symbol is
what the transformer makes of the tree of that symbol, so the parser returns what transforming the
finished tree returns. Handlers of tokens are also called on tokens that no tree keeps. -/
namespace AxisLang

open List (Forall₂)

namespace Transformer

mutual

theorem resultOf_identified (t : Transformer) (n : Nat) (v : Value) (h : v.isKey = true) :
    t.resultOf (v.identified n).1 = t.resultOf v := by
  cases v with
  | tree id l cs s =>
    rw [Value.isKey] at h
    cases id with
    | none => rw [Value.identified, resultOf, resultsOf_identifiedAll t _ cs h, resultOf]
    | some i => rw [Value.identified, resultOf, resultsOf_identifiedAll t _ cs h, resultOf]
  | list xs => exact absurd h (by simp [Value.isKey])
  | _ => rfl

theorem resultsOf_identifiedAll (t : Transformer) (n : Nat) (vs : List Value)
    (h : Value.allKeys vs = true) : t.resultsOf (Value.identifiedAll n vs).1 = t.resultsOf vs := by
  cases vs with
  | nil => rfl
  | cons v vs =>
    rw [Value.allKeys, Bool.and_eq_true_iff] at h
    rw [Value.identifiedAll, resultsOf, resultOf_identified t _ v h.1,
      resultsOf_identifiedAll t _ vs h.2, resultsOf]

end

theorem run_single {t : Transformer} (plain : t.strategy = .pure) {v : Value} (tree : v.isTree = true)
    (h : v.isKey = true) : ((Transformation.single t).run v).1 = t.resultOf v := by
  have tree' : (v.identified v.idBound).1.isTree = true := (Value.isTree_identified _).trans tree
  have applied : t.apply (v.identified v.idBound).1 =
      Edit.lookThrough (v.identified v.idBound).1 >>= fun u => Edit.ofResult (t.resultOf u) := by
    simp only [apply, plain, tree', if_true]
  have settled (fresh : Nat) (u : Value) : (Revisions.mk [] fresh).now u = u :=
    Revisions.now_unchanged rfl u
  have same : t.resultOf ((Revisions.mk [] (v.identified v.idBound).2).now (v.identified v.idBound).1) =
      t.resultOf v := by
    rw [settled, resultOf_identified t _ v h]
  have outcome : ((t.apply (v.identified v.idBound).1).run { fresh := (v.identified v.idBound).2 }) =
      (t.resultOf v, { fresh := (v.identified v.idBound).2 }) := by
    rw [applied, ← same]
    rfl
  rw [Transformation.run, Edit.runOn]
  simp only [Transformation.apply, outcome]
  cases t.resultOf v with
  | error e => rfl
  | ok r => exact congrArg Except.ok (settled _ r)

theorem resultsOf_cons (t : Transformer) {v r : Value} {vs rs : List Value}
    (first : t.resultOf v = .ok r) (kept : r.isDiscard = false) (later : t.resultsOf vs = .ok rs) :
    t.resultsOf (v :: vs) = .ok (r :: rs) := by
  have both : keepResult r rs = r :: rs := by simp [keepResult, kept]
  rw [resultsOf, first, later, ← both]
  rfl

theorem resultsOf_append (t : Transformer) {us vs us' vs' : List Value}
    (h : t.resultsOf us = .ok us') (h' : t.resultsOf vs = .ok vs') :
    t.resultsOf (us ++ vs) = .ok (us' ++ vs') := by
  induction us generalizing us' with
  | nil =>
    obtain rfl : [] = us' := Except.ok.inj h
    exact h'
  | cons u us ih =>
    rw [resultsOf] at h
    cases first : t.resultOf u with
    | error e => rw [first] at h; exact absurd h (by simp [bind, Except.bind])
    | ok r =>
      cases later : t.resultsOf us with
      | error e => rw [first, later] at h; exact absurd h (by simp [bind, Except.bind])
      | ok rs =>
        rw [first, later] at h
        obtain rfl : keepResult r rs = us' := Except.ok.inj h
        rw [List.cons_append, resultsOf, first, ih later]
        cases kept : r.isDiscard <;> simp [keepResult, kept, bind, Except.bind, pure, Except.pure]

end Transformer

namespace Transformer

variable {t : Transformer} {l : Label}

/-- What a transformer makes of the children of a node while a text is parsed. -/
def nodeBuilder (t : Transformer) (l : Label) : NodeBuilder :=
  match t.member? l.name with
  | none => Builder.makeTree l
  | some (.constant type) => fun _ => .error (notCallable type)
  | some (.handler h) => fun items => h.callNode l items {}

/-- The handler of a label, if there is one, does not ask for the span. -/
def IgnoresSpan (t : Transformer) (l : Label) : Prop :=
  ∀ h, t.member? l.name = some (.handler h) → h.convention ≠ .span ∧ h.convention ≠ .spanInline

theorem userBuilder_eq (plain : t.strategy = .pure) (spanless : t.IgnoresSpan l) :
    Builder.userBuilder (some t) l = .ok (t.nodeBuilder l) := by
  cases found : t.member? l.name with
  | none => simp only [Builder.userBuilder, nodeBuilder, found]
  | some m =>
    cases m with
    | constant type => simp [Builder.userBuilder, nodeBuilder, found, plain]
    | handler h =>
      obtain ⟨noSpan, noInline⟩ := spanless h found
      obtain ⟨name, convention, body⟩ := h
      simp only [Builder.userBuilder, nodeBuilder, found, plain]
      cases convention with
      | span => exact absurd rfl noSpan
      | spanInline => exact absurd rfl noInline
      | _ => rfl

theorem nodeBuilder_of_callNode (plain : t.strategy = .pure) {items : List Value} {v : Value}
    (h : t.callNode l items {} = .ok v) : t.nodeBuilder l items = .ok v := by
  have marked : t.callNode l items {} = inRule l.name (t.nodeBuilder l items) := by
    unfold callNode nodeBuilder
    cases t.member? l.name with
    | none => rfl
    | some m => cases m <;> simp [plain]
  rw [marked] at h
  cases built : t.nodeBuilder l items with
  | ok v' => rw [built] at h; exact h
  | error e => rw [built] at h; cases e <;> exact absurd h (by simp [inRule])

theorem onToken_of_callToken (visits : t.visitTokens = true) {terminals : List Terminal} {x : Token}
    (known : terminals.any (fun d => d.name == x.kind) = true) {v : Value}
    (h : t.callToken x = .ok v) : Parser.onToken (some t) terminals x = .ok v := by
  simp only [callToken, visits, if_true] at h
  simp only [Parser.onToken, known, if_true]
  cases found : t.member? x.kind with
  | none => rw [found] at h; exact h
  | some m =>
    rw [found] at h
    cases m with
    | constant type => exact absurd h (by simp [inRule, notCallable])
    | handler f =>
      dsimp only at h ⊢
      cases called : f.body (.token x) with
      | ok v' => rw [called] at h; exact h
      | error e => rw [called] at h; cases e <;> exact absurd h (by simp [inRule])

end Transformer

namespace Builder

variable {rules : List Rule} {o : BuilderOptions} {t : Option Transformer} {own : Rule → NodeBuilder}
  {steps : Rule → List (NodeBuilder → NodeBuilder)}

theorem build_eq (distinct : rules.Pairwise fun a b => a.same b = false)
    (shaped : ∀ r ∈ rules, stepsOf o r = .ok (steps r))
    (owned : ∀ r ∈ rules, userBuilder t r.label = .ok (own r)) :
    build o t rules =
      .ok (rules.map fun r => (r, (steps r).foldl (fun f step => step f) (own r))) := by
  have prepared := mapM_ok (f := fun r => do return (r, ← stepsOf o r)) (g := fun r => (r, steps r))
    fun r mem => by rw [shaped r mem]; rfl
  rw [build, prepared]
  simp only [bind, Except.bind]
  rw [foldlM_ok (g := fun x => (x.1, x.2.foldl (fun f step => step f) (own x.1)))
    (R := fun d x => d.1.same x.1 = false) ?_ (by simp) ?_]
  · simp [pure, Except.pure]
  · simpa [List.pairwise_map] using distinct
  · intro x among done fresh
    obtain ⟨r, mem, rfl⟩ := List.mem_map.mp among
    have unused : done.any (fun d => d.1.same r) = false := by simpa using fresh
    simp [owned r mem, unused, pure, Except.pure]

end Builder

namespace Expression

variable {t : Transformer}

def embeddingParser (t : Transformer) : Except Error Parser :=
  Parser.load stored [("transformer", .transformation (.single t))]

/-- The transformer goes through trees and tokens in the plain way; its handlers for rules do not ask
for spans, and helpers have no handlers. -/
structure IsPlain (t : Transformer) : Prop where
  strategy : t.strategy = .pure
  visitTokens : t.visitTokens = true
  spanless : ∀ r ∈ rules, t.IgnoresSpan r.label
  helpers : ∀ X, isHelper X = true → t.member? X = none

def embeddedNode (t : Transformer) (r : Rule) : NodeBuilder :=
  Builder.around r (t.nodeBuilder r.label)

def embeddingSemantics (t : Transformer) : Semantics Value :=
  ⟨Parser.onToken (some t) terminals, Parser.onRule (rules.map fun r => (r, embeddedNode t r))⟩

def embeddingSettings (t : Transformer) : Settings :=
  let given := settings.update [("transformer", .transformation (.single t))]
  Settings.defaults.map fun (name, d) =>
    (name, Settings.adopt name ((given.get? name).getD (.datum d)))

theorem embeddingParser_eq (t : Transformer) :
    embeddingParser t = (Builder.build {} (some t) rules).bind fun builders => parser.map fun p =>
      { p with
        settings := embeddingSettings t
        semantics := ⟨Parser.onToken (some t) terminals, Parser.onRule builders⟩ } := by
  with_unfolding_all rfl

theorem rules_distinct : rules.Pairwise fun a b => a.same b = false := by decide +kernel

theorem build_embedded (plain : IsPlain t) :
    Builder.build {} (some t) rules = .ok (rules.map fun r => (r, embeddedNode t r)) := by
  have shaped : ∀ r ∈ rules, Builder.stepsOf {} r = .ok ((Builder.stepsOf {} r).toOption.getD []) := by
    intro r mem
    obtain ⟨steps, eq, _⟩ := Builder.exists_steps (regular mem).dropsMarks
    rw [eq]
    rfl
  rw [Builder.build_eq rules_distinct shaped fun r mem =>
    Transformer.userBuilder_eq plain.strategy (plain.spanless r mem)]
  refine congrArg Except.ok (List.map_congr_left fun r mem => ?_)
  rw [embeddedNode, Builder.around, shaped r mem]
  rfl

theorem exists_embeddingParser (plain : IsPlain t) :
    ∃ p cl, embeddingParser t = .ok p ∧ Standard p cl ∧ p.semantics = embeddingSemantics t := by
  obtain ⟨p, cl, loaded, standard, _⟩ := parser_loads
  rw [embeddingParser_eq, build_embedded plain, loaded]
  refine ⟨_, cl, rfl, ?_, rfl⟩
  exact ⟨standard.start, standard.tables, standard.layout, standard.lexing, standard.suited⟩

section Shapes

variable {Xs : List String} {ss : List Symbol} {w : List Token} {vs : List Value}

structure Grown (X : String) (v : Value) : Prop where
  terminal : (∀ r ∈ rules, r.origin.name ≠ X) → ∃ x, v = .token x
  helper : isHelper X = true → ∃ l cs, v = .tree none l cs {} ∧ l.name = X
  listless : v.isKey = true

theorem allKeys_iff : Value.allKeys vs = true ↔ ∀ v ∈ vs, v.isKey = true := by
  induction vs with
  | nil => simp [Value.allKeys]
  | cons v vs ih => rw [Value.allKeys, Bool.and_eq_true_iff, ih, List.forall_mem_cons]

theorem fits_of_grown (inlined : ∀ s ∈ ss, s.isInlined = isHelper s.name)
    (h : Forall₂ Grown (ss.map Symbol.name) vs) : Forall₂ Builder.Fits ss vs := by
  rw [List.forall₂_map_left_iff] at h
  refine ((List.forall₂_and_left ss vs).mpr ⟨inlined, h⟩).imp ?_
  rintro s v ⟨same, grown⟩ _ spliced
  obtain ⟨l, cs, rfl, _⟩ := grown.helper (same ▸ spliced)
  exact ⟨l, cs, {}, rfl⟩

theorem isKey_keep (h : ∀ v ∈ vs, v.isKey = true) : ∀ v ∈ Builder.keep ss vs, v.isKey = true := by
  induction ss generalizing vs with
  | nil => simp [Builder.keep]
  | cons s ss ih =>
    cases vs with
    | nil => simp [Builder.keep]
    | cons v vs =>
      rw [List.forall_mem_cons] at h
      rw [Builder.keep_cons, List.forall_mem_append]
      refine ⟨?_, ih h.2⟩
      have children : ∀ c ∈ v.children, c.isKey = true := by
        cases v with
        | tree id l cs sp => exact allKeys_iff.mp h.1
        | _ => simp [Value.children]
      rw [Builder.keepOne]
      split
      · simp
      · split
        · exact children
        · simpa using h.1

theorem listless_of_grown (h : Forall₂ Grown Xs vs) : ∀ v ∈ vs, v.isKey = true := by
  induction h with
  | nil => simp
  | cons first _ ih => exact List.forall_mem_cons.mpr ⟨first.listless, ih⟩

theorem grown_of_derives (h : Derives rules semantics Xs w vs) : Forall₂ Grown Xs vs := by
  induction h with
  | nil => exact .nil
  | @token x v Xs w vs terminal value _ ih =>
    obtain rfl : Value.token x = v := Except.ok.inj value
    refine .cons ⟨fun _ => ⟨x, rfl⟩, fun helper => ?_, rfl⟩ ih
    exact absurd helper (by simp [isHelper_of_terminal terminal])
  | @rule r v us u Xs w vs mem _ value _ ihBody ih =>
    refine .cons ?_ ih
    have known := regular mem
    rw [onRule_eq mem, nodeOf_eq] at value
    cases gives : Builder.givesWay r with
    | true =>
      obtain ⟨s, one, _, helper, handsOn⟩ := around_single mem gives
      rw [one] at ihBody
      cases ihBody with
      | cons first later =>
        cases later with
        | nil =>
          obtain rfl := Except.ok.inj ((handsOn _ _).symm.trans value)
          exact ⟨fun h => absurd rfl (h r mem), by simp [helper], first.listless⟩
    | false =>
      rw [around_tree mem gives _ (fits_of_grown known.inlined ihBody)] at value
      obtain rfl : Value.tree none r.label _ {} = v := Except.ok.inj value
      refine ⟨fun h => absurd rfl (h r mem), fun _ => ⟨_, _, rfl, known.label⟩, ?_⟩
      exact allKeys_iff.mpr (isKey_keep (listless_of_grown ihBody))

end Shapes

def Answers (result : Except Error Value) : Prop :=
  ∃ v, result = .ok v ∧ v.isDiscard = false

/-- All trees of a value are answered, apart from those of helpers. -/
def Asked (t : Transformer) (v : Value) : Prop :=
  ∀ u ∈ Transformer.postorder v, ∀ l, u.label? = some l → isHelper l.name = false →
    Answers (t.resultOf u)

section Calls

variable {ss : List Symbol} {w : List Token} {vs vs' cs : List Value} {r : Rule} {id : Option Nat}
  {l : Label} {sp : Span}

theorem mem_postorderAll {u : Value} :
    u ∈ Transformer.postorderAll vs ↔ ∃ v ∈ vs, u ∈ Transformer.postorder v := by
  induction vs with
  | nil => simp [Transformer.postorderAll]
  | cons v vs ih => simp [Transformer.postorderAll, ih]

theorem asked_tree : Asked t (.tree id l cs sp) ↔ (∀ c ∈ cs, Asked t c) ∧
    (isHelper l.name = false → Answers (t.resultOf (.tree id l cs sp))) := by
  rw [Asked, Transformer.postorder, List.forall_mem_append, List.forall_mem_singleton]
  refine and_congr ?_ ?_
  · constructor
    · exact fun h c mem u among => h u (mem_postorderAll.mpr ⟨c, mem, among⟩)
    · intro h u among
      obtain ⟨c, mem, within⟩ := mem_postorderAll.mp among
      exact h c mem u within
  · constructor
    · exact fun h => h l rfl
    · rintro h _ ⟨⟩
      exact h

theorem asked_keep (inlined : ∀ s ∈ ss, s.isInlined = isHelper s.name)
    (filtered : ∀ s ∈ ss, s.isFiltered = true → ∀ r ∈ rules, r.origin.name ≠ s.name)
    (grown : Forall₂ Grown (ss.map Symbol.name) vs) (h : ∀ v ∈ Builder.keep ss vs, Asked t v) :
    ∀ v ∈ vs, Asked t v := by
  induction ss generalizing vs with
  | nil => cases grown; simp
  | cons s ss ih =>
    rw [List.forall_mem_cons] at inlined filtered
    cases grown with
    | @cons _ v _ vs first later =>
      rw [Builder.keep_cons, List.forall_mem_append] at h
      refine List.forall_mem_cons.mpr ⟨?_, ih inlined.2 filtered.2 later h.2⟩
      have kept := h.1
      rw [Builder.keepOne] at kept
      -- what is left out is a token, which has no trees; a helper is not asked for itself
      cases left : s.isFiltered with
      | true =>
        obtain ⟨x, rfl⟩ := first.terminal (filtered.1 left)
        simp [Asked, Transformer.postorder, Value.label?]
      | false =>
        rw [left, inlined.1] at kept
        cases helper : isHelper s.name with
        | true =>
          obtain ⟨l, cs, rfl, name⟩ := first.helper helper
          rw [helper] at kept
          exact asked_tree.mpr ⟨kept, by simp [name, helper]⟩
        | false =>
          rw [helper] at kept
          exact kept v (by simp)

structure Transformed (t : Transformer) (X : String) (v v' : Value) : Prop where
  result : isHelper X = false → t.resultOf v = .ok v' ∧ v'.isDiscard = false
  helper : isHelper X = true → ∃ l cs cs', v = .tree none l cs {} ∧ v' = .tree none l cs' {} ∧
    t.resultsOf cs = .ok cs'

theorem fits_of_transformed (mem : r ∈ rules)
    (h : Related (fun X _ => Transformed t X) (r.expansion.map Symbol.name) w vs vs') :
    Forall₂ Builder.Fits r.expansion vs' := by
  refine fits_of_related (fun transformed helper => ?_) (regular mem).inlined h
  obtain ⟨l, _, cs, _, rfl, _⟩ := transformed.helper helper
  exact ⟨l, cs, _, rfl⟩

theorem resultsOf_keep (inlined : ∀ s ∈ ss, s.isInlined = isHelper s.name)
    (h : Related (fun X _ => Transformed t X) (ss.map Symbol.name) w vs vs') :
    t.resultsOf (Builder.keep ss vs) = .ok (Builder.keep ss vs') := by
  induction ss generalizing w vs vs' with
  | nil => cases h; rfl
  | cons s ss ih =>
    rw [List.forall_mem_cons] at inlined
    cases h with
    | @cons _ u v v' _ w vs vs' first later =>
      rw [Builder.keep_cons, Builder.keep_cons]
      refine t.resultsOf_append ?_ (ih inlined.2 later)
      rw [Builder.keepOne, Builder.keepOne, inlined.1]
      cases s.isFiltered with
      | true => rfl
      | false =>
        cases helper : isHelper s.name with
        | true =>
          obtain ⟨l, cs, cs', rfl, rfl, results⟩ := first.helper helper
          exact results
        | false => exact t.resultsOf_cons (first.result helper).1 (first.result helper).2 rfl

/-- The step lemma: a rule keeps the relation, whether it builds something or gives way to its child. -/
theorem transformed_rule (plain : IsPlain t) (mem : r ∈ rules)
    (grown : Forall₂ Grown (r.expansion.map Symbol.name) vs)
    (related : Related (fun X _ => Transformed t X) (r.expansion.map Symbol.name) w vs vs') {v : Value}
    (built : nodeOf r vs = .ok v) (asked : Asked t v) :
    ∃ v', embeddedNode t r vs' = .ok v' ∧ Transformed t r.origin.name v v' := by
  have known := regular mem
  rw [nodeOf_eq] at built
  cases gives : Builder.givesWay r with
  | true =>
    obtain ⟨s, one, child, helper, handsOn⟩ := around_single mem gives
    rw [one] at related
    cases related with
    | cons first later =>
      cases later with
      | nil =>
        obtain rfl := Except.ok.inj ((handsOn _ _).symm.trans built)
        exact ⟨_, handsOn _ _, fun _ => first.result child, by simp [helper]⟩
  | false =>
    rw [around_tree mem gives _ (fits_of_grown known.inlined grown)] at built
    obtain rfl : Value.tree none r.label (Builder.keep r.expansion vs) {} = v := Except.ok.inj built
    have results := resultsOf_keep known.inlined related
    have called : t.resultOf (.tree none r.label (Builder.keep r.expansion vs) {}) =
        t.callNode r.label (Builder.keep r.expansion vs') {} := by
      rw [Transformer.resultOf, results]
      rfl
    rw [embeddedNode, around_tree mem gives _ (fits_of_transformed mem related)]
    -- no handler is called for a helper; for other rules the one that answers afterwards is called now
    cases helper : isHelper r.origin.name with
    | true =>
      have none : t.callNode r.label (Builder.keep r.expansion vs') {} =
          .ok (.tree none r.label (Builder.keep r.expansion vs') {}) := by
        rw [Transformer.callNode, known.label, plain.helpers _ helper]
      exact ⟨_, Transformer.nodeBuilder_of_callNode plain.strategy none, by simp [helper],
        fun _ => ⟨_, _, _, rfl, rfl, results⟩⟩
    | false =>
      obtain ⟨v', returned, kept⟩ := (asked_tree.mp asked).2 (known.label ▸ helper)
      refine ⟨v', Transformer.nodeBuilder_of_callNode plain.strategy (called ▸ returned),
        fun _ => ⟨returned, kept⟩, by simp [helper]⟩

theorem asked_parts (mem : r ∈ rules) (grown : Forall₂ Grown (r.expansion.map Symbol.name) vs)
    {v : Value} (built : nodeOf r vs = .ok v) (asked : Asked t v) : ∀ x ∈ vs, Asked t x := by
  have known := regular mem
  rw [nodeOf_eq] at built
  cases gives : Builder.givesWay r with
  | true =>
    obtain ⟨s, one, _, _, handsOn⟩ := around_single mem gives
    rw [one] at grown
    cases grown with
    | cons first later =>
      cases later with
      | nil =>
        obtain rfl := Except.ok.inj ((handsOn _ _).symm.trans built)
        simpa using asked
  | false =>
    rw [around_tree mem gives _ (fits_of_grown known.inlined grown)] at built
    obtain rfl : Value.tree none r.label (Builder.keep r.expansion vs) {} = v := Except.ok.inj built
    exact asked_keep known.inlined (fun s among left => (known.filtered s among left).2) grown
      (asked_tree.mp asked).1

end Calls

theorem carries_transformed (plain : IsPlain t) :
    Carries rules semantics (embeddingSemantics t) (fun X _ => Transformed t X)
      (fun x => x.kind ∈ kinds ∧ Answers (t.callToken x)) (Asked t) where
  token x v known terminal value := by
    obtain rfl : Value.token x = v := Except.ok.inj value
    obtain ⟨kind, v', called, kept⟩ := known
    have read : ∀ k ∈ kinds, terminals.any (fun d => d.name == k) = true := by decide +kernel
    refine ⟨v', Transformer.onToken_of_callToken plain.visitTokens (read _ kind) called, ?_⟩
    exact ⟨fun _ => ⟨called, kept⟩, by simp [isHelper_of_terminal terminal]⟩
  parts r mem u us v body value asked :=
    asked_parts mem (grown_of_derives body) (onRule_eq mem us ▸ value) asked
  rule r mem u us us' v body related value asked := by
    obtain ⟨v', built, relation⟩ :=
      transformed_rule plain mem (grown_of_derives body) related (onRule_eq mem us ▸ value) asked
    exact ⟨v', (onRule_builders (embeddedNode t) mem us').trans built, relation⟩

def embeddedTree (t : Transformer) (s : String) : Except Error Value := do
  (← embeddingParser t).parse s

/-- A transformer that is applied while a text is parsed returns what it returns for the finished tree,
if its handlers answer every token of the text and every tree of the tree. -/
theorem embedded_eq_afterwards {t : Transformer} (plain : IsPlain t) {s : String} {v : Value}
    (accepted : tree s = .ok v)
    (tokens : ∀ ls, Cut s.toList ls → ∀ x ∈ tokensOf {} ls, Answers (t.callToken x))
    (trees : ∀ u ∈ Transformer.postorder v, u.isTree = true → Answers (t.resultOf u)) :
    ∃ r, embeddedTree t s = .ok r ∧ ((Transformation.single t).run v).1 = .ok r := by
  obtain ⟨p, cl, loaded, standard, meaning⟩ := exists_embeddingParser plain
  have asked : Asked t v := by
    intro u mem l label _
    refine trees u mem ?_
    cases u with
    | tree => rfl
    | _ => exact absurd label (by simp [Value.label?])
  obtain ⟨r, ls, parsed, _, transformed⟩ := standard.parse_carried (meaning ▸ carries_transformed plain)
    accepted (fun ls cut x mem => ⟨kind_tokensOf {} ls x mem, tokens ls cut x mem⟩) asked
  refine ⟨r, ?_, ?_⟩
  · rw [embeddedTree, loaded]
    exact parsed
  · obtain ⟨_, _, e, _, rfl⟩ := tree_eq_ok_iff.mp accepted
    obtain ⟨ls, _, derived⟩ := derives_of_tree accepted
    have listless : e.tree.isKey = true := listless_of_grown (grown_of_derives derived) _ (by simp)
    rw [Transformer.run_single plain.strategy rfl listless]
    exact (transformed.result (by decide +kernel)).1

section Total

structure IsTotal (t : Transformer) : Prop where
  node : ∀ l items s, Answers (t.callNode l items s)
  token : ∀ x, Answers (t.callToken x)

mutual

theorem IsTotal.result {t : Transformer} (h : IsTotal t) (v : Value) : ∃ r, t.resultOf v = .ok r := by
  cases v with
  | tree id l cs s =>
    obtain ⟨rs, results⟩ := h.results cs
    obtain ⟨r, called, _⟩ := h.node l rs s
    exact ⟨r, by rw [Transformer.resultOf, results]; exact called⟩
  | token x =>
    obtain ⟨r, called, _⟩ := h.token x
    exact ⟨r, called⟩
  | _ => exact ⟨_, rfl⟩

theorem IsTotal.results {t : Transformer} (h : IsTotal t) (vs : List Value) :
    ∃ rs, t.resultsOf vs = .ok rs := by
  cases vs with
  | nil => exact ⟨[], rfl⟩
  | cons v vs =>
    obtain ⟨r, first⟩ := h.result v
    obtain ⟨rs, later⟩ := h.results vs
    exact ⟨_, by rw [Transformer.resultsOf, first, later]; rfl⟩

end

theorem IsTotal.answers {t : Transformer} (h : IsTotal t) {v : Value} (tree : v.isTree = true) :
    Answers (t.resultOf v) := by
  cases v with
  | tree id l cs s =>
    obtain ⟨rs, results⟩ := h.results cs
    obtain ⟨r, called, kept⟩ := h.node l rs s
    exact ⟨r, by rw [Transformer.resultOf, results]; exact called, kept⟩
  | _ => exact absurd tree (by simp [Value.isTree])

theorem isTotal_of_members {t : Transformer} (plain : t.strategy = .pure)
    (members : ∀ m ∈ t.members, ∃ f, m.2 = .handler f ∧ ∀ args, Answers (f.body args)) : IsTotal t := by
  have handler {name : String} {m : Member} (found : t.member? name = some m) :
      ∃ f, m = .handler f ∧ ∀ args, Answers (f.body args) := by
    obtain ⟨front, back, eq, _⟩ := List.lookup_eq_some_iff.mp found
    exact members (name, m) (by simp [eq])
  constructor
  · intro l items s
    cases found : t.member? l.name with
    | none => exact ⟨.tree none l items s, by rw [Transformer.callNode, found], rfl⟩
    | some m =>
      obtain ⟨f, rfl, answers⟩ := handler found
      obtain ⟨v, called, kept⟩ : Answers (f.callNode l items s) := answers _
      exact ⟨v, by simp [Transformer.callNode, found, plain, called, inRule], kept⟩
  · intro x
    cases found : t.member? x.kind with
    | none => exact ⟨.token x, by simp [Transformer.callToken, found], rfl⟩
    | some m =>
      obtain ⟨f, rfl, answers⟩ := handler found
      obtain ⟨v, called, kept⟩ := answers (.token x)
      cases visits : t.visitTokens with
      | true => exact ⟨v, by simp [Transformer.callToken, found, visits, called, inRule], kept⟩
      | false => exact ⟨.token x, by simp [Transformer.callToken, visits], rfl⟩

end Total

/-- Names are joined, axes counted by a handler that takes the whole tree, and commas, which no tree
keeps, are counted as well. -/
def countingTransformer : Transformer where
  members := [
    ("name", .handler ⟨"name", .inline, NodeTask.join.body "name"⟩),
    ("axes", .handler ⟨"axes", .tree, NodeTask.count.body "axes"⟩),
    ("COMMA", .handler ⟨"COMMA", .plain, NodeTask.count.body "COMMA"⟩)]

theorem countingTransformer_isTotal : IsTotal countingTransformer := by
  refine isTotal_of_members rfl ?_
  simp only [countingTransformer, List.forall_mem_cons]
  refine ⟨⟨_, rfl, ?_⟩, ⟨_, rfl, ?_⟩, ⟨_, rfl, ?_⟩, by simp⟩ <;>
    · intro args
      cases args <;> exact ⟨_, rfl, rfl⟩

theorem countingTransformer_isPlain : IsPlain countingTransformer where
  strategy := rfl
  visitTokens := rfl
  spanless r _ h found := by
    obtain ⟨front, back, eq, _⟩ := List.lookup_eq_some_iff.mp found
    have among : (r.label.name, Member.handler h) ∈ countingTransformer.members := by simp [eq]
    simp only [countingTransformer, List.mem_cons, Prod.mk.injEq, Member.handler.injEq,
      List.not_mem_nil, or_false] at among
    obtain ⟨_, rfl⟩ | ⟨_, rfl⟩ | ⟨_, rfl⟩ := among <;> decide
  helpers X helper := by
    have none : ∀ r ∈ rules, r.origin.isInlined = true →
        (countingTransformer.member? r.origin.name).isNone = true := by decide +kernel
    obtain ⟨r, mem, origin⟩ := List.any_eq_true.mp helper
    rw [Bool.and_eq_true_iff, beq_iff_eq] at origin
    exact Option.isNone_iff_eq_none.mp (origin.1 ▸ none r mem origin.2)

theorem embedded_eq_afterwards_counting : IsPlain countingTransformer ∧
    ∃ v r, tree sampleText = .ok v ∧ embeddedTree countingTransformer sampleText = .ok r ∧
      ((Transformation.single countingTransformer).run v).1 = .ok r := by
  obtain ⟨v, accepted⟩ := sampleText_accepted
  obtain ⟨r, same⟩ := embedded_eq_afterwards countingTransformer_isPlain accepted
    (fun _ _ x _ => countingTransformer_isTotal.token x)
    (fun _ _ tree => countingTransformer_isTotal.answers tree)
  exact ⟨countingTransformer_isPlain, v, r, accepted, same⟩

end Expression

end AxisLang
