import AxisLang.Proofs.Meanings

/-! Spans of trees.
A parser that sets positions gives every tree the span of the tokens that the tree was derived from,
also of those that the tree does not keep. Spans are set from the parts of a tree while it is built,
before its children are selected: the first part that has a place tells where the tree starts, the last
one where it ends. Apart from spans the trees are those of a parser that sets none. -/
namespace AxisLang

open List (Forall₂)

namespace Value

mutual

def bare : Value → Value
  | .tree id l cs _ => .tree id l (bareAll cs) {}
  | .list xs => .list (bareAll xs)
  | v => v

def bareAll : List Value → List Value
  | [] => []
  | v :: vs => bare v :: bareAll vs

end

theorem bareAll_eq (vs : List Value) : bareAll vs = vs.map bare := by
  induction vs with
  | nil => rfl
  | cons v vs ih => rw [bareAll, ih, List.map_cons]

theorem bare_tree (id : Option Nat) (l : Label) (cs : List Value) (s : Span) :
    bare (.tree id l cs s) = .tree id l (cs.map bare) {} := by
  rw [bare, bareAll_eq]

theorem children_bare (v : Value) : v.bare.children = v.children.map bare := by
  cases v with
  | tree id l cs s => rw [bare_tree, children, children]
  | _ => rfl

end Value

theorem Builder.keep_bare (ss : List Symbol) (vs : List Value) :
    keep ss (vs.map Value.bare) = (keep ss vs).map Value.bare := by
  induction ss generalizing vs with
  | nil => rfl
  | cons s ss ih =>
    cases vs with
    | nil => rfl
    | cons v vs =>
      rw [List.map_cons, keep_cons, keep_cons, ih, List.map_append, keepOne, keepOne, Value.children_bare]
      split
      · rfl
      · split <;> rfl

namespace Span

/-- The span of a row of tokens: it starts where the first one starts and ends where the last one ends.
Outer lines and columns are recorded beside the others and agree with them; a row without tokens is
empty and has no place. -/
def ofTokens (w : List Token) : Span where
  empty := w.isEmpty
  line := w.head?.map Token.line
  column := w.head?.map Token.column
  start := w.head?.map Token.start
  endLine := w.getLast?.map Token.endLine
  endColumn := w.getLast?.map Token.endColumn
  stop := w.getLast?.map Token.stop
  outerLine := w.head?.map Token.line
  outerColumn := w.head?.map Token.column
  outerEndLine := w.getLast?.map Token.endLine
  outerEndColumn := w.getLast?.map Token.endColumn

structure Begins (s : Span) (x : Token) : Prop where
  line : outermost s.line s.outerLine = .ok x.line
  column : outermost s.column s.outerColumn = .ok x.column
  start : outermost s.start s.outerStart = .ok x.start

structure Finishes (s : Span) (x : Token) : Prop where
  endLine : outermost s.endLine s.outerEndLine = .ok x.endLine
  endColumn : outermost s.endColumn s.outerEndColumn = .ok x.endColumn
  stop : outermost s.stop s.outerStop = .ok x.stop

theorem begins_ofTokens {w : List Token} {x : Token} (h : w.head? = some x) : (ofTokens w).Begins x := by
  constructor <;> rw [ofTokens, h] <;> rfl

theorem finishes_ofTokens {w : List Token} {x : Token} (h : w.getLast? = some x) :
    (ofTokens w).Finishes x := by
  constructor <;> rw [ofTokens, h] <;> rfl

variable {w : List Token} {x y : Token} {m : Span}

theorem ofTokens_eq (first : w.head? = some x) (last : w.getLast? = some y) :
    ofTokens w = {
      empty := false
      line := some x.line
      column := some x.column
      start := some x.start
      endLine := some y.endLine
      endColumn := some y.endColumn
      stop := some y.stop
      outerLine := some x.line
      outerColumn := some x.column
      outerEndLine := some y.endLine
      outerEndColumn := some y.endColumn } := by
  have some : w.isEmpty = false := by
    cases w with
    | nil => exact absurd first (by simp)
    | cons _ _ => rfl
  rw [ofTokens, first, last, some]
  rfl

theorem exists_startingAt {s m' : Span} (fresh : s = {} ∨ s = ofTokens w) (begins : m.Begins x)
    (finishes : m'.Finishes y) (first : w.head? = some x) (last : w.getLast? = some y) :
    ∃ mid, s.startingAt m = .ok mid ∧ mid.endingAt m' = .ok (ofTokens w) := by
  rw [ofTokens_eq first last] at fresh ⊢
  obtain rfl | rfl := fresh
  · simp [startingAt, endingAt, begins.line, begins.column, begins.start, finishes.endLine,
      finishes.endColumn, finishes.stop, bind, Except.bind, pure, Except.pure]
  · simp [startingAt, endingAt, begins.line, begins.column, finishes.endLine, finishes.endColumn, bind,
      Except.bind, pure, Except.pure]

end Span

section Places

variable {w w' : List Token} {vs : List Value} {v : Value}

theorem optionRel_or {α β : Type} {R : α → β → Prop} {a a' : Option α} {b b' : Option β}
    (h : Option.Rel R a b) (h' : Option.Rel R a' b') : Option.Rel R (a.or a') (b.or b') := by
  cases h with
  | none => exact h'
  | some related => exact .some related

structure Anchored (w : List Token) (v : Value) : Prop where
  first : Option.Rel Span.Begins (PositionRule.all.spanOf? v) w.head?
  last : Option.Rel Span.Finishes (PositionRule.all.spanOf? v) w.getLast?

theorem anchored_token (x : Token) : Anchored [x] (.token x) :=
  ⟨.some ⟨rfl, rfl, rfl⟩, .some ⟨rfl, rfl, rfl⟩⟩

theorem anchored_ofTokens (w : List Token) (id : Option Nat) (l : Label) (cs : List Value) :
    Anchored w (.tree id l cs (Span.ofTokens w)) := by
  by_cases some : w = []
  · subst some
    exact ⟨.none, .none⟩
  · have place : PositionRule.all.spanOf? (.tree id l cs (Span.ofTokens w)) =
        .some (Span.ofTokens w) := by
      simp [PositionRule.spanOf?, PositionRule.admits, Span.ofTokens, some]
    obtain ⟨x, first⟩ := Option.ne_none_iff_exists'.mp (mt List.head?_eq_none_iff.mp some)
    obtain ⟨y, last⟩ := Option.ne_none_iff_exists'.mp (mt List.getLast?_eq_none_iff.mp some)
    constructor
    · rw [place, first]
      exact .some (Span.begins_ofTokens first)
    · rw [place, last]
      exact .some (Span.finishes_ofTokens last)

structure AnchoredAll (w : List Token) (vs : List Value) : Prop where
  first : Option.Rel Span.Begins (vs.findSome? PositionRule.all.spanOf?) w.head?
  last : Option.Rel Span.Finishes (vs.reverse.findSome? PositionRule.all.spanOf?) w.getLast?

theorem anchoredAll_nil : AnchoredAll [] [] := ⟨.none, .none⟩

theorem AnchoredAll.cons (h : Anchored w v) (h' : AnchoredAll w' vs) :
    AnchoredAll (w ++ w') (v :: vs) := by
  constructor
  · have found : (v :: vs).findSome? PositionRule.all.spanOf? =
        (PositionRule.all.spanOf? v).or (vs.findSome? PositionRule.all.spanOf?) := by
      rw [List.findSome?_cons]
      cases PositionRule.all.spanOf? v <;> rfl
    rw [found, List.head?_append]
    exact optionRel_or h.first h'.first
  · have found : (v :: vs).reverse.findSome? PositionRule.all.spanOf? =
        (vs.reverse.findSome? PositionRule.all.spanOf?).or (PositionRule.all.spanOf? v) := by
      rw [List.reverse_cons, List.findSome?_append, List.findSome?_singleton]
    rw [found, List.getLast?_append]
    exact optionRel_or h'.last h.last

theorem locate_tree (h : AnchoredAll w vs) {s : Span} (fresh : s = {} ∨ s = Span.ofTokens w)
    (id : Option Nat) (l : Label) (cs : List Value) :
    PositionRule.all.locate vs (.tree id l cs s) = .ok (.tree id l cs (Span.ofTokens w)) := by
  obtain ⟨first, last⟩ := h
  have both : w.head? = none ↔ w.getLast? = none := by
    rw [List.head?_eq_none_iff, List.getLast?_eq_none_iff]
  simp only [PositionRule.locate]
  generalize vs.findSome? PositionRule.all.spanOf? = m at first
  generalize vs.reverse.findSome? PositionRule.all.spanOf? = m' at last
  generalize head : w.head? = x at first both
  generalize tail : w.getLast? = y at last both
  -- the first and the last token are there together or not at all
  cases first with
  | none =>
    cases last with
    | none =>
      obtain rfl := List.head?_eq_none_iff.mp head
      obtain rfl | rfl := fresh <;> rfl
    | some _ => exact absurd (both.mp rfl) (by simp)
  | some begins =>
    cases last with
    | none => exact absurd (both.mpr rfl) (by simp)
    | some finishes =>
      obtain ⟨mid, starts, ends⟩ := Span.exists_startingAt fresh begins finishes head tail
      simp only [starts, ends, bind, Except.bind]
      rfl

end Places

/-- The values stand for parts of a row of tokens, one after the other; other tokens than names may
stand before, between and after them. -/
inductive Spread (P : List Token → Value → Prop) : List Token → List Value → Prop
  | nil {w : List Token} (marks : ∀ x ∈ w, x.kind ≠ TokenKind.name.terminal) : Spread P w []
  | cons {gap u w : List Token} {v : Value} {vs : List Value}
      (marks : ∀ x ∈ gap, x.kind ≠ TokenKind.name.terminal) (first : P u v) (later : Spread P w vs) :
      Spread P (gap ++ (u ++ w)) (v :: vs)

namespace Spread

variable {P : List Token → Value → Prop} {w w' : List Token} {vs vs' : List Value}

theorem marks_append (marks : ∀ x ∈ w, x.kind ≠ TokenKind.name.terminal) (h : Spread P w' vs) :
    Spread P (w ++ w') vs := by
  cases h with
  | nil marks' => exact .nil (List.forall_mem_append.mpr ⟨marks, marks'⟩)
  | cons marks' first later =>
    rw [← List.append_assoc]
    exact .cons (List.forall_mem_append.mpr ⟨marks, marks'⟩) first later

theorem append (h : Spread P w vs) (h' : Spread P w' vs') : Spread P (w ++ w') (vs ++ vs') := by
  induction h with
  | nil marks => exact h'.marks_append marks
  | cons marks first _ ih =>
    rw [List.append_assoc, List.append_assoc]
    exact .cons marks first ih

theorem single {v : Value} (h : P w v) : Spread P w [v] := by
  have whole : Spread P ([] ++ (w ++ [])) [v] := .cons (by simp) h (.nil (by simp))
  rwa [List.nil_append, List.append_nil] at whole

end Spread

namespace Expression

/-- Every tree of the value has the span of the tokens that it is derived from, and its children stand
for parts of them. A tree for no tokens is the one of an absent output. -/
inductive Spanned : List Token → Value → Prop
  | token (x : Token) : Spanned [x] (.token x)
  | tree {w : List Token} {l : Label} {cs : List Value}
      (derived : Derives rules semantics [l.name] w [.tree none l (cs.map Value.bare) {}])
      (absent : w = [] → l.name = "output_variable") (children : Spread Spanned w cs) :
      Spanned w (.tree none l cs (Span.ofTokens w))

theorem Spanned.anchored {w : List Token} {v : Value} (h : Spanned w v) : Anchored w v := by
  cases h with
  | token x => exact anchored_token x
  | tree => exact anchored_ofTokens w _ _ _

theorem absent_of_derives {α : Type} {sem : Semantics α} {Xs : List String} {w : List Token} {vs : List α}
    (h : Derives rules sem Xs w vs) (none : w = []) : ∀ X ∈ Xs, X = "output_variable" := by
  have closed : ∀ r ∈ rules, (∀ s ∈ r.expansion, s.name = "output_variable") →
      r.origin.name = "output_variable" := by decide +kernel
  induction h with
  | nil => simp
  | token => exact absurd none (by simp)
  | @rule r v us u Xs w vs mem _ _ _ ihBody ih =>
    obtain ⟨rfl, rfl⟩ := List.append_eq_nil_iff.mp none
    refine List.forall_mem_cons.mpr ⟨closed r mem fun s among => ?_, ih rfl⟩
    exact ihBody rfl s.name (List.mem_map_of_mem among)

structure Located (X : String) (w : List Token) (v v' : Value) : Prop where
  bare : v'.bare = v
  terminal : (∀ r ∈ rules, r.origin.name ≠ X) → ∃ x, w = [x] ∧ x.kind = X
  spanned : isHelper X = false → Spanned w v'
  helper : isHelper X = true → ∃ l cs, v' = .tree none l cs (Span.ofTokens w) ∧ Spread Spanned w cs

theorem Located.anchored {X : String} {w : List Token} {v v' : Value} (h : Located X w v v') :
    Anchored w v' := by
  cases helper : isHelper X with
  | false => exact (h.spanned helper).anchored
  | true =>
    obtain ⟨l, cs, rfl, _⟩ := h.helper helper
    exact anchored_ofTokens w _ l cs

section Rules

variable {Xs : List String} {ss : List Symbol} {w : List Token} {vs vs' : List Value} {r : Rule}

theorem bare_of_related (h : Related Located Xs w vs vs') : vs'.map Value.bare = vs := by
  induction h with
  | nil => rfl
  | cons first _ ih => rw [List.map_cons, first.bare, ih]

theorem anchoredAll_of_related (h : Related Located Xs w vs vs') : AnchoredAll w vs' := by
  induction h with
  | nil => exact anchoredAll_nil
  | cons first _ ih => exact .cons first.anchored ih

theorem fits_of_located (mem : r ∈ rules)
    (h : Related Located (r.expansion.map Symbol.name) w vs vs') :
    Forall₂ Builder.Fits r.expansion vs' := by
  refine fits_of_related (fun located helper => ?_) (regular mem).inlined h
  obtain ⟨l, cs, rfl, _⟩ := located.helper helper
  exact ⟨l, cs, _, rfl⟩

theorem fits_bare (h : Forall₂ Builder.Fits ss vs) : Forall₂ Builder.Fits ss (vs.map Value.bare) := by
  rw [List.forall₂_map_right_iff]
  refine h.imp fun s v fits kept spliced => ?_
  obtain ⟨l, cs, sp, rfl⟩ := fits kept spliced
  exact ⟨l, _, _, Value.bare_tree _ _ _ _⟩

theorem spread_keep (inlined : ∀ s ∈ ss, s.isInlined = isHelper s.name)
    (filtered : ∀ s ∈ ss, s.isFiltered = true → s.name ≠ TokenKind.name.terminal ∧
      ∀ r ∈ rules, r.origin.name ≠ s.name)
    (h : Related Located (ss.map Symbol.name) w vs vs') :
    Spread Spanned w (Builder.keep ss vs') := by
  induction ss generalizing w vs vs' with
  | nil => cases h; exact .nil (by simp)
  | cons s ss ih =>
    rw [List.forall_mem_cons] at inlined filtered
    cases h with
    | @cons _ u v v' _ w vs vs' first later =>
      refine Spread.append ?_ (ih inlined.2 filtered.2 later)
      rw [Builder.keepOne]
      -- a token left out is a gap, and a helper is spread over its tokens itself
      cases left : s.isFiltered with
      | true =>
        obtain ⟨x, rfl, kind⟩ := first.terminal (filtered.1 left).2
        exact .nil (by simpa [kind] using (filtered.1 left).1)
      | false =>
        rw [inlined.1]
        cases helper : isHelper s.name with
        | true =>
          obtain ⟨l, cs, rfl, spread⟩ := first.helper helper
          exact spread
        | false => exact .single (first.spanned helper)

theorem locate_spanned {v : Value} (h : Spanned w v) :
    PositionRule.all.locate [v] v = .ok v := by
  have anchored : AnchoredAll (w ++ []) [v] := .cons h.anchored anchoredAll_nil
  rw [List.append_nil] at anchored
  cases h with
  | token x => rfl
  | tree => exact locate_tree anchored (.inr rfl) _ _ _

theorem located_single (mem : r ∈ rules) (gives : Builder.givesWay r = true)
    (related : Related Located (r.expansion.map Symbol.name) w vs vs') :
    ∃ v v', nodeOf r vs = .ok v ∧ Builder.locate .all (nodeOf r) vs' = .ok v' ∧
      Located r.origin.name w v v' := by
  obtain ⟨s, one, child, helper, handsOn⟩ := around_single mem gives
  rw [one] at related
  rw [nodeOf_eq]
  cases related with
  | cons first later =>
    cases later with
    | nil =>
      have spanned := first.spanned child
      refine ⟨_, _, handsOn _ _, ?_, first.bare, fun h => absurd rfl (h r mem), fun _ => ?_, ?_⟩
      · -- the child has its span already, and gets it once more
        rw [Builder.locate, handsOn]
        exact locate_spanned spanned
      · rwa [List.append_nil]
      · simp [helper]

theorem located_tree (mem : r ∈ rules) (stays : Builder.givesWay r = false)
    (body : Derives rules semantics (r.expansion.map Symbol.name) w vs)
    (related : Related Located (r.expansion.map Symbol.name) w vs vs') :
    ∃ v v', nodeOf r vs = .ok v ∧ Builder.locate .all (nodeOf r) vs' = .ok v' ∧
      Located r.origin.name w v v' := by
  have known := regular mem
  have fits := fits_of_located mem related
  have spread := spread_keep known.inlined known.filtered related
  have value := around_tree mem stays (Builder.makeTree r.label) (fits_bare fits)
  rw [Builder.keep_bare, bare_of_related related] at value
  have whole := derives_rule (mem_rulesOf.mpr ⟨mem, known.label.symm⟩) body value
  refine ⟨_, _, value, ?_, Value.bare_tree _ _ _ (Span.ofTokens w), fun h => absurd rfl (h r mem),
    fun _ => ?_, fun _ => ⟨_, _, rfl, spread⟩⟩
  · rw [Builder.locate, nodeOf_eq, around_tree mem stays _ fits]
    exact locate_tree (anchoredAll_of_related related) (.inl rfl) _ _ _
  · exact .tree whole (fun none => absent_of_derives whole none _ (by simp)) spread

end Rules

/-- The parser of expressions that also sets positions. -/
def locatingParser : Except Error Parser :=
  Parser.load stored [("propagate_positions", .datum (.bool true))]

def locatedTree (s : String) : Except Error Value := do
  (← locatingParser).parse s

def locatingSemantics : Semantics Value :=
  ⟨Parser.onToken none terminals,
    Parser.onRule (rules.map fun r => (r, Builder.locate .all (nodeOf r)))⟩

theorem locatingParser_isStandard : locatingParser.toOption.any isStandard = true := by decide +kernel

theorem locatingParser_semantics :
    locatingParser.toOption.map Parser.semantics = some locatingSemantics := by
  with_unfolding_all rfl

theorem locating_onRule {r : Rule} (mem : r ∈ rules) (vs : List Value) :
    locatingSemantics.onRule r vs = Builder.locate .all (nodeOf r) vs :=
  onRule_builders (fun r => Builder.locate .all (nodeOf r)) mem vs

theorem located_token (x : Token) (terminal : ∀ r ∈ rules, r.origin.name ≠ x.kind) :
    Located x.kind [x] (.token x) (.token x) :=
  ⟨rfl, fun _ => ⟨x, rfl, rfl⟩, fun _ => .token x, fun helper =>
    absurd helper (by simp [isHelper_of_terminal terminal])⟩

theorem carries_located :
    Carries rules semantics locatingSemantics Located (fun _ => True) fun _ => True where
  token x v _ terminal value := by
    obtain rfl : Value.token x = v := Except.ok.inj value
    exact ⟨_, rfl, located_token x terminal⟩
  parts _ _ _ _ _ _ _ _ _ _ := trivial
  rule r mem u us us' v body related value _ := by
    rw [onRule_eq mem] at value
    obtain ⟨v', v'', built, located, relation⟩ : ∃ v v', nodeOf r us = .ok v ∧
        Builder.locate .all (nodeOf r) us' = .ok v' ∧ Located r.origin.name u v v' := by
      cases gives : Builder.givesWay r with
      | true => exact located_single mem gives related
      | false => exact located_tree mem gives body related
    obtain rfl := Except.ok.inj (built.symm.trans value)
    exact ⟨v'', (locating_onRule mem us').trans located, relation⟩

/-- A text that is accepted is also accepted by the parser that sets positions. Its tree is the same
apart from spans, and each of its trees has the span of the tokens of the text that the tree is derived
from. -/
theorem spans_exact {s : String} {v : Value} (accepted : tree s = .ok v) :
    ∃ v' ls, locatedTree s = .ok v' ∧ v'.bare = v ∧ Cut s.toList ls ∧
      Spanned (tokensOf {} ls) v' := by
  obtain ⟨p, cl, loaded, standard, meaning⟩ :=
    exists_of_isStandard locatingParser_isStandard locatingParser_semantics
  obtain ⟨v', ls, parsed, cut, located⟩ := standard.parse_carried (meaning ▸ carries_located) accepted
    (by simp) trivial
  refine ⟨v', ls, ?_, located.bare, cut, located.spanned (by decide +kernel)⟩
  rw [locatedTree, loaded]
  exact parsed

theorem spans_exact_sample : ∃ v v' ls, tree sampleText = .ok v ∧ locatedTree sampleText = .ok v' ∧
    v'.bare = v ∧ Cut sampleText.toList ls ∧ Spanned (tokensOf {} ls) v' := by
  obtain ⟨v, accepted⟩ := sampleText_accepted
  obtain ⟨v', ls, located⟩ := spans_exact accepted
  exact ⟨v, v', ls, accepted, located⟩

end Expression

end AxisLang
