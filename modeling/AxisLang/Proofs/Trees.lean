import AxisLang.Proofs.ExpressionTable
import AxisLang.Proofs.Phrase
import Mathlib.Data.List.Induction

/-! The trees of expressions.
What the start rule derives are the spellings of phrases, and the value of a derivation is the tree of
its phrase: marks are left out, the helpers that repeat items give way to their children, and an entry
that is a single axis has no tree of its own. -/
namespace AxisLang

def ruleNode (name : String) (children : List Value) : Value :=
  .tree none ⟨name, true⟩ children {}

def nameTree (x : Token) : Value :=
  ruleNode "name" [.token x]

def Factor.tree : Factor Token → Value
  | .name x => nameTree x
  | .dots => ruleNode "ellipsis" []

def Entry.tree : Entry Token → Value
  | .single x => x.tree
  | .product x y more => ruleNode "product_axis" ((x :: y :: more).map Factor.tree)

def Argument.tree : Argument Token → Value
  | .bare x => ruleNode "variable" [nameTree x]
  | .indexed n x more =>
    ruleNode "variable" (n.toList.map nameTree ++ [ruleNode "axes" ((x :: more).map Entry.tree)])

def Phrase.tree (e : Phrase Token) : Value :=
  ruleNode "einsum" [ruleNode "input_variables" ((e.first :: e.more).map Argument.tree),
    ruleNode "output_variable" (e.output.toList.map Argument.tree)]

def Token.Fits (x : Token) : Piece Token → Prop
  | .name y => x = y ∧ x.kind = TokenKind.name.terminal
  | .mark m => x.kind = m.kind.terminal

namespace Expression

open List (Forall₂)

variable {β γ : Type} {spell : β → List (Piece Token)} {spell' : γ → List (Piece Token)}
  {R : β → List Value → Prop} {R' : γ → List Value → Prop} {tree : β → Value} {tree' : γ → Value}
  {X : String} {Xs : List String} {rs rs' : List Rule} {r : Rule}

theorem terminal_ne_origin (k : TokenKind) : ∀ r ∈ rules, r.origin.name ≠ k.terminal := by
  cases k <;> decide +kernel

structure Parsed (Xs : List String) (spell : β → List (Piece Token))
    (R : β → List Value → Prop) : Prop where
  sound : ∀ {w vs}, Derives rules semantics Xs w vs → ∃ x, Forall₂ Token.Fits w (spell x) ∧ R x vs
  complete : ∀ {w} x, Forall₂ Token.Fits w (spell x) → ∃ vs, Derives rules semantics Xs w vs ∧ R x vs

namespace Parsed

theorem nil : Parsed [] (fun _ : Unit => []) fun _ vs => vs = [] where
  sound h := ⟨(), h.nil_inv.1 ▸ .nil, h.nil_inv.2⟩
  complete _ fits := by
    obtain rfl := List.forall₂_nil_right_iff.mp fits
    exact ⟨[], .nil, rfl⟩

theorem cons (h : Parsed [X] spell R) (h' : Parsed Xs spell' R') :
    Parsed (X :: Xs) (fun x : β × γ => spell x.1 ++ spell' x.2) fun x vs =>
      ∃ us vs', vs = us ++ vs' ∧ R x.1 us ∧ R' x.2 vs' where
  sound derived := by
    obtain ⟨u, w, v, vs, rfl, rfl, front, back⟩ := derived.cons_inv
    obtain ⟨x, fits, value⟩ := h.sound front
    obtain ⟨y, fits', values⟩ := h'.sound back
    exact ⟨(x, y), List.rel_append fits fits', [v], vs, rfl, value, values⟩
  complete := by
    rintro w ⟨x, y⟩ fits
    obtain ⟨us, front, value⟩ := h.complete x (List.forall₂_take_append _ _ _ fits)
    obtain ⟨vs, back, values⟩ := h'.complete y (List.forall₂_drop_append _ _ _ fits)
    refine ⟨us ++ vs, ?_, us, vs, rfl, value, values⟩
    have whole := front.append back
    rwa [List.take_append_drop] at whole

theorem token_inv {k : TokenKind} {w : List Token} {vs : List Value}
    (h : Derives rules semantics [k.terminal] w vs) :
    ∃ x, w = [x] ∧ x.kind = k.terminal ∧ vs = [.token x] := by
  obtain ⟨x, v, kind, rfl, rfl, _, value⟩ | ⟨r, v, us, mem, origin, _⟩ := h.singleton_inv
  · exact ⟨x, rfl, kind.symm, by rw [Except.ok.inj value]⟩
  · exact absurd origin.symm (terminal_ne_origin k r mem)

theorem derives_token {k : TokenKind} {x : Token} (kind : x.kind = k.terminal) :
    Derives rules semantics [k.terminal] [x] [.token x] := by
  rw [← kind]
  exact .token (kind ▸ terminal_ne_origin k) rfl .nil

theorem name : Parsed [TokenKind.name.terminal] (fun x : Token => [.name x]) fun x vs =>
    vs = [.token x] where
  sound h := by
    obtain ⟨x, rfl, kind, rfl⟩ := token_inv h
    exact ⟨x, .cons ⟨rfl, kind⟩ .nil, rfl⟩
  complete x fits := by
    obtain ⟨y, w, ⟨rfl, kind⟩, none, rfl⟩ := List.forall₂_cons_right_iff.mp fits
    obtain rfl := List.forall₂_nil_right_iff.mp none
    exact ⟨_, derives_token kind, rfl⟩

theorem mark (m : Mark) : Parsed [m.kind.terminal] (fun _ : Unit => [.mark m]) fun _ vs =>
    ∃ v, vs = [v] where
  sound h := by
    obtain ⟨x, rfl, kind, rfl⟩ := token_inv h
    exact ⟨(), .cons kind .nil, _, rfl⟩
  complete x fits := by
    obtain ⟨y, w, kind, none, rfl⟩ := List.forall₂_cons_right_iff.mp fits
    obtain rfl := List.forall₂_nil_right_iff.mp none
    exact ⟨_, derives_token kind, _, rfl⟩

end Parsed

theorem find?_same : ∀ r ∈ rules, rules.find? (fun d => d.same r) = some r := by decide +kernel

theorem onRule_builders (f : Rule → NodeBuilder) (mem : r ∈ rules) (vs : List Value) :
    Parser.onRule (rules.map fun r => (r, f r)) r vs = f r vs := by
  have found : Builder.lookup? (rules.map fun r => (r, f r)) r = some (f r) := by
    rw [Builder.lookup?, List.find?_map]
    exact congrArg (fun d => Option.map Prod.snd (Option.map (fun r => (r, f r)) d))
      (find?_same r mem)
  simp only [Parser.onRule, found]

theorem onRule_eq (mem : r ∈ rules) (vs : List Value) : semantics.onRule r vs = nodeOf r vs :=
  onRule_builders nodeOf mem vs

def rulesOf (X : String) : List Rule :=
  rules.filter fun r => r.origin.name == X

theorem mem_rulesOf : r ∈ rulesOf X ↔ r ∈ rules ∧ r.origin.name = X := by
  simp [rulesOf]

def ruleGroups : List (String × List Rule) := [
  ("name", [nameRule]),
  ("ellipsis", [ellipsisRule]),
  ("axis_name", [axisOfName, axisOfEllipsis]),
  ("__product_axis_plus_0", [factorsFirst, factorsMore]),
  ("product_axis", [productRule]),
  ("axis_name_or_product", [itemOfProduct, itemOfAxis]),
  ("__axes_plus_1", [itemsFirst, itemsMore]),
  ("axes", [axesOfMany, axesOfOne]),
  ("variable", [variableWithAxes, variableOfName, variableOfAxes]),
  ("__input_variables_star_2", [variablesFirst, variablesMore]),
  ("input_variables", [inputsOfMany, inputsOfOne]),
  ("output_variable", [outputOfVariable, outputAbsent]),
  ("einsum", [einsumRule]),
  ("start", [startRule])]

-- one evaluation of the grammar answers for every symbol
theorem ruleGroups_spec : (∀ g ∈ ruleGroups, rulesOf g.1 = g.2 ∧ g.2 ≠ []) ∧
    ∀ r ∈ rules, r.origin.name ∈ ruleGroups.map Prod.fst := by
  decide +kernel

theorem rulesOf_eq (mem : (X, rs) ∈ ruleGroups) : rulesOf X = rs :=
  (ruleGroups_spec.1 _ mem).1

theorem rulesOf_ne_nil (mem : X ∈ ruleGroups.map Prod.fst) : rulesOf X ≠ [] := by
  obtain ⟨⟨_, rs⟩, group, rfl⟩ := List.mem_map.mp mem
  rw [rulesOf_eq group]
  exact (ruleGroups_spec.1 _ group).2

theorem derives_rule {w : List Token} {vs : List Value} {v : Value} (mem : r ∈ rulesOf X)
    (body : Derives rules semantics (r.expansion.map Symbol.name) w vs)
    (built : nodeOf r vs = .ok v) : Derives rules semantics [X] w [v] := by
  obtain ⟨among, rfl⟩ := mem_rulesOf.mp mem
  have whole : Derives rules semantics [r.origin.name] (w ++ []) [v] :=
    .rule among body (by rw [onRule_eq among, built]) .nil
  rwa [List.append_nil] at whole

theorem rule_of_derives {w : List Token} {vs : List Value} (some : rulesOf X ≠ [])
    (h : Derives rules semantics [X] w vs) :
    ∃ r ∈ rulesOf X, ∃ us v, vs = [v] ∧
      Derives rules semantics (r.expansion.map Symbol.name) w us ∧ nodeOf r us = .ok v := by
  obtain ⟨t, v, _, _, _, free, _⟩ | ⟨r, v, us, mem, origin, same, body, value⟩ := h.singleton_inv
  · obtain ⟨r, rest, eq⟩ := List.exists_cons_of_ne_nil some
    obtain ⟨mem, origin⟩ := mem_rulesOf.mp (eq ▸ List.mem_cons_self : r ∈ rulesOf X)
    exact absurd origin (free r mem)
  · exact ⟨r, mem_rulesOf.mpr ⟨mem, origin.symm⟩, us, v, same, body, onRule_eq mem us ▸ value⟩

/-- Some rules, taken together, derive the spellings of the given things, and build their trees. -/
structure Branches (rs : List Rule) (spell : β → List (Piece Token)) (tree : β → Value) :
    Prop where
  sound : ∀ r ∈ rs, ∀ {w vs}, Derives rules semantics (r.expansion.map Symbol.name) w vs →
    ∃ x, Forall₂ Token.Fits w (spell x) ∧ nodeOf r vs = .ok (tree x)
  complete : ∀ {w} x, Forall₂ Token.Fits w (spell x) → ∃ r ∈ rs, ∃ vs,
    Derives rules semantics (r.expansion.map Symbol.name) w vs ∧ nodeOf r vs = .ok (tree x)

namespace Branches

theorem one (r : Rule) (tree : β → Value) (h : Parsed (r.expansion.map Symbol.name) spell R)
    (value : ∀ x vs, R x vs → nodeOf r vs = .ok (tree x)) : Branches [r] spell tree where
  sound := by
    intro r mem w vs derived
    obtain rfl := List.mem_singleton.mp mem
    obtain ⟨x, fits, values⟩ := h.sound derived
    exact ⟨x, fits, value x vs values⟩
  complete x fits := by
    obtain ⟨vs, derived, values⟩ := h.complete x fits
    exact ⟨r, by simp, vs, derived, value x vs values⟩

theorem either (h : Branches rs spell tree) (h' : Branches rs' spell' tree') :
    Branches (rs ++ rs') (Sum.elim spell spell') (Sum.elim tree tree') where
  sound := by
    intro r mem w vs derived
    obtain mem | mem := List.mem_append.mp mem
    · obtain ⟨x, fits, value⟩ := h.sound r mem derived
      exact ⟨.inl x, fits, value⟩
    · obtain ⟨y, fits, value⟩ := h'.sound r mem derived
      exact ⟨.inr y, fits, value⟩
  complete := by
    rintro w (x | y) fits
    · obtain ⟨r, mem, vs, derived, value⟩ := h.complete x fits
      exact ⟨r, by simp [mem], vs, derived, value⟩
    · obtain ⟨r, mem, vs, derived, value⟩ := h'.complete y fits
      exact ⟨r, by simp [mem], vs, derived, value⟩

theorem of_same (h : Branches rs spell tree)
    (onto : ∀ x, ∃ y, spell' y = spell x ∧ tree' y = tree x)
    (back : ∀ y, ∃ x, spell x = spell' y ∧ tree x = tree' y) : Branches rs spell' tree' where
  sound r mem _ _ derived := by
    obtain ⟨x, fits, value⟩ := h.sound r mem derived
    obtain ⟨y, spelled, built⟩ := onto x
    exact ⟨y, spelled ▸ fits, built ▸ value⟩
  complete y fits := by
    obtain ⟨x, spelled, built⟩ := back y
    rw [← spelled] at fits
    rw [← built]
    exact h.complete x fits

theorem parsed (h : Branches (rulesOf X) spell tree) (known : X ∈ ruleGroups.map Prod.fst) :
    Parsed [X] spell fun x vs => vs = [tree x] where
  sound derived := by
    obtain ⟨r, mem, us, v, rfl, body, value⟩ := rule_of_derives (rulesOf_ne_nil known) derived
    obtain ⟨x, fits, built⟩ := h.sound r mem body
    rw [built] at value
    exact ⟨x, fits, by rw [Except.ok.inj value]⟩
  complete x fits := by
    obtain ⟨r, mem, vs, derived, built⟩ := h.complete x fits
    exact ⟨_, derives_rule mem derived built, rfl⟩

end Branches

theorem branches_name : Branches (rulesOf "name") (fun x : Token => [.name x]) nameTree := by
  have all : rulesOf "name" = [nameRule] := rulesOf_eq (by simp [ruleGroups])
  rw [all]
  refine .one _ _ Parsed.name ?_
  rintro x vs rfl
  with_unfolding_all rfl

theorem branches_ellipsis : Branches (rulesOf "ellipsis") (fun _ : Unit => [.mark .dots]) fun _ =>
    ruleNode "ellipsis" [] := by
  have all : rulesOf "ellipsis" = [ellipsisRule] := rulesOf_eq (by simp [ruleGroups])
  rw [all]
  refine .one _ _ (Parsed.mark .dots) ?_
  rintro _ _ ⟨v, rfl⟩
  with_unfolding_all rfl

theorem branches_factor : Branches (rulesOf "axis_name") Factor.spell Factor.tree := by
  have all : rulesOf "axis_name" = [axisOfName] ++ [axisOfEllipsis] :=
    rulesOf_eq (by simp [ruleGroups])
  have name := Branches.parsed branches_name (by simp [ruleGroups])
  have dots := Branches.parsed branches_ellipsis (by simp [ruleGroups])
  have ofName := Branches.one axisOfName nameTree name (by
    rintro x _ rfl
    with_unfolding_all rfl)
  have ofDots := Branches.one axisOfEllipsis (fun _ => ruleNode "ellipsis" []) dots (by
    rintro _ _ rfl
    with_unfolding_all rfl)
  rw [all]
  refine (ofName.either ofDots).of_same ?_ ?_
  · rintro (x | _)
    · exact ⟨.name x, rfl, rfl⟩
    · exact ⟨.dots, rfl, rfl⟩
  · rintro (x | _)
    · exact ⟨.inl x, rfl, rfl⟩
    · exact ⟨.inr (), rfl, rfl⟩

/-- The builder of a helper that adds an item at the end. -/
def growing (H : String) : NodeBuilder :=
  Builder.select ⟨[⟨0, true, 0⟩, ⟨2, false, 0⟩], 0, true⟩ (Builder.makeTree ⟨H, false⟩)

theorem growing_node (H : String) (cs : List Value) (a b : Value) :
    growing H [.node H cs, a, b] = .ok (.node H (cs ++ [b])) := by
  simp [growing, Builder.select, Selection.gather, Selection.gatherOne, Value.node,
    Builder.makeTree, bind, Except.bind, pure, Except.pure]

def continued (name : String) : NodeBuilder :=
  Builder.select ⟨[⟨0, false, 0⟩, ⟨1, true, 0⟩], 0, true⟩ (Builder.makeTree ⟨name, true⟩)

theorem continued_node (name H : String) (a : Value) (cs : List Value) :
    continued name [a, .node H cs] = .ok (ruleNode name (a :: cs)) := by
  simp [continued, Builder.select, Selection.gather, Selection.gatherOne, Value.node, ruleNode,
    Builder.makeTree, bind, Except.bind, pure, Except.pure]

/-- A helper that repeats an item after a mark: one rule begins the list, the other adds to it at the
end, so the helper's tree grows from the left. -/
theorem branches_repeated (H : String) (m : Mark) (first more : Rule)
    (item : Parsed [X] spell fun x vs => vs = [tree x]) (all : rulesOf H = [first, more])
    (begins : first.expansion.map Symbol.name = [m.kind.terminal, X])
    (grows : more.expansion.map Symbol.name = [H, m.kind.terminal, X])
    (one : ∀ a b, nodeOf first [a, b] = .ok (.node H [b])) (again : nodeOf more = growing H) :
    Branches (rulesOf H) (fun xs : { xs : List β // xs ≠ [] } => following m spell xs.1)
      fun xs => .node H (xs.1.map tree) := by
  have step := (Parsed.mark m).cons item
  constructor
  · -- the helper in front of the mark derives fewer tokens
    intro r mem w
    induction size : w.length using Nat.strong_induction_on generalizing r w with
    | _ n ih =>
      intro vs derived
      obtain rfl | rfl : r = first ∨ r = more := by simpa [all] using mem
      · rw [begins] at derived
        obtain ⟨⟨_, x⟩, fits, _, _, rfl, ⟨a, rfl⟩, rfl⟩ := step.sound derived
        exact ⟨⟨[x], by simp⟩, by simpa [following] using fits, one a (tree x)⟩
      · rw [grows] at derived
        obtain ⟨u, w, v, vs, rfl, rfl, front, back⟩ := derived.cons_inv
        obtain ⟨⟨_, x⟩, fits, _, _, rfl, ⟨a, rfl⟩, rfl⟩ := step.sound back
        have longer := fits.length_eq
        simp only [List.length_append, List.length_cons] at longer size
        obtain ⟨r', mem', us, v', same, body, value⟩ := rule_of_derives (by simp [all]) front
        obtain ⟨⟨xs, some⟩, fits', built⟩ := ih u.length (by omega) r' mem' rfl body
        obtain rfl := List.singleton_inj.mp same
        obtain rfl := Except.ok.inj (value.symm.trans built)
        refine ⟨⟨xs ++ [x], by simp⟩, ?_, ?_⟩
        · simpa [following] using List.rel_append fits' fits
        · rw [again, List.map_append]
          exact growing_node H _ a _
  · rintro w ⟨xs, some⟩ fits
    induction xs using List.reverseRecOn generalizing w with
    | nil => exact absurd rfl some
    | append_singleton xs x ih =>
      have split : following m spell (xs ++ [x]) = following m spell xs ++ .mark m :: spell x := by
        simp [following]
      simp only [split] at fits
      obtain ⟨vs, back, us, _, rfl, ⟨a, rfl⟩, rfl⟩ := step.complete ((), x)
        (List.forall₂_drop_append _ _ _ fits)
      have front := List.forall₂_take_append _ _ _ fits
      cases xs with
      | nil =>
        refine ⟨first, by simp [all], _, begins ▸ back, ?_⟩
        exact one a (tree x)
      | cons y ys =>
        obtain ⟨r, mem, us, body, built⟩ := ih (by simp) front
        have whole := (derives_rule mem body built).append back
        rw [List.take_append_drop, List.singleton_append, ← grows] at whole
        refine ⟨more, by simp [all], _, whole, ?_⟩
        rw [again, List.map_append]
        exact growing_node H _ a _

theorem branches_factors : Branches (rulesOf "__product_axis_plus_0")
    (fun xs : { xs : List (Factor Token) // xs ≠ [] } => following .star Factor.spell xs.1)
    fun xs => .node "__product_axis_plus_0" (xs.1.map Factor.tree) := by
  have factor := Branches.parsed branches_factor (by simp [ruleGroups])
  have all : rulesOf "__product_axis_plus_0" = [factorsFirst, factorsMore] :=
    rulesOf_eq (by simp [ruleGroups])
  exact branches_repeated _ .star _ _ factor all rfl rfl (fun _ _ => by with_unfolding_all rfl)
    (by with_unfolding_all rfl)

theorem branches_product : Branches (rulesOf "product_axis")
    (fun x : Factor Token × { xs : List (Factor Token) // xs ≠ [] } =>
      x.1.spell ++ following .star Factor.spell x.2.1)
    fun x => ruleNode "product_axis" ((x.1 :: x.2.1).map Factor.tree) := by
  have all : rulesOf "product_axis" = [productRule] := rulesOf_eq (by simp [ruleGroups])
  have built : nodeOf productRule = continued "product_axis" := by with_unfolding_all rfl
  have factor := Branches.parsed branches_factor (by simp [ruleGroups])
  have factors := Branches.parsed branches_factors (by simp [ruleGroups])
  rw [all]
  refine .one _ _ (factor.cons factors) ?_
  rintro ⟨x, xs⟩ _ ⟨_, _, rfl, rfl, rfl⟩
  rw [built]
  exact continued_node ..

theorem branches_entry :
    Branches (rulesOf "axis_name_or_product") Entry.spell Entry.tree := by
  have all : rulesOf "axis_name_or_product" = [itemOfProduct] ++ [itemOfAxis] :=
    rulesOf_eq (by simp [ruleGroups])
  have product := Branches.parsed branches_product (by simp [ruleGroups])
  have factor := Branches.parsed branches_factor (by simp [ruleGroups])
  have ofProduct := Branches.one itemOfProduct _ product (by
    rintro x _ rfl
    with_unfolding_all rfl)
  have ofAxis := Branches.one itemOfAxis _ factor (by
    rintro x _ rfl
    with_unfolding_all rfl)
  rw [all]
  refine (ofProduct.either ofAxis).of_same ?_ ?_
  · rintro (⟨x, _ | ⟨y, more⟩, some⟩ | x)
    · exact absurd rfl some
    · exact ⟨.product x y more, rfl, rfl⟩
    · exact ⟨.single x, rfl, rfl⟩
  · rintro (x | ⟨x, y, more⟩)
    · exact ⟨.inr x, rfl, rfl⟩
    · exact ⟨.inl (x, ⟨y :: more, by simp⟩), rfl, rfl⟩

theorem branches_entries : Branches (rulesOf "__axes_plus_1")
    (fun xs : { xs : List (Entry Token) // xs ≠ [] } => following .comma Entry.spell xs.1)
    fun xs => .node "__axes_plus_1" (xs.1.map Entry.tree) := by
  have entry := Branches.parsed branches_entry (by simp [ruleGroups])
  have all : rulesOf "__axes_plus_1" = [itemsFirst, itemsMore] :=
    rulesOf_eq (by simp [ruleGroups])
  exact branches_repeated _ .comma _ _ entry all rfl rfl (fun _ _ => by with_unfolding_all rfl)
    (by with_unfolding_all rfl)

theorem branches_axes : Branches (rulesOf "axes")
    (fun x : Entry Token × List (Entry Token) => x.1.spell ++ following .comma Entry.spell x.2)
    fun x => ruleNode "axes" ((x.1 :: x.2).map Entry.tree) := by
  have all : rulesOf "axes" = [axesOfMany] ++ [axesOfOne] := rulesOf_eq (by simp [ruleGroups])
  have built : nodeOf axesOfMany = continued "axes" := by with_unfolding_all rfl
  have entry := Branches.parsed branches_entry (by simp [ruleGroups])
  have entries := Branches.parsed branches_entries (by simp [ruleGroups])
  have many := Branches.one axesOfMany (fun x => ruleNode "axes" ((x.1 :: x.2.1).map Entry.tree))
    (entry.cons entries) (by
      rintro ⟨x, xs⟩ _ ⟨_, _, rfl, rfl, rfl⟩
      rw [built]
      exact continued_node ..)
  have single := Branches.one axesOfOne (fun x => ruleNode "axes" [x.tree]) entry (by
    rintro x _ rfl
    with_unfolding_all rfl)
  rw [all]
  refine (many.either single).of_same ?_ ?_
  · rintro (⟨x, xs, _⟩ | x)
    · exact ⟨(x, xs), rfl, rfl⟩
    · exact ⟨(x, []), by simp [following], rfl⟩
  · rintro ⟨x, _ | ⟨y, more⟩⟩
    · exact ⟨.inr x, by simp [following], rfl⟩
    · exact ⟨.inl (x, ⟨y :: more, by simp⟩), rfl, rfl⟩

theorem branches_argument : Branches (rulesOf "variable") Argument.spell Argument.tree := by
  have all : rulesOf "variable" = [variableWithAxes] ++ ([variableOfName] ++ [variableOfAxes]) :=
    rulesOf_eq (by simp [ruleGroups])
  have name := Branches.parsed branches_name (by simp [ruleGroups])
  have axes := Branches.parsed branches_axes (by simp [ruleGroups])
  have bracketed := (Parsed.mark .opening).cons (axes.cons (Parsed.mark .closing))
  have withAxes := Branches.one variableWithAxes
    (fun x => (Argument.indexed (some x.1) x.2.2.1.1 x.2.2.1.2).tree) (name.cons bracketed) (by
      rintro ⟨n, _, ⟨x, more⟩, _⟩ _ ⟨_, _, rfl, rfl, _, _, rfl, ⟨a, rfl⟩, _, _, rfl, rfl, b, rfl⟩
      with_unfolding_all rfl)
  have ofName := Branches.one variableOfName (fun x => (Argument.bare x).tree) name (by
    rintro x _ rfl
    with_unfolding_all rfl)
  have ofAxes := Branches.one variableOfAxes
    (fun x => (Argument.indexed none x.2.1.1 x.2.1.2).tree) bracketed (by
      rintro ⟨_, ⟨x, more⟩, _⟩ _ ⟨_, _, rfl, ⟨a, rfl⟩, _, _, rfl, rfl, b, rfl⟩
      with_unfolding_all rfl)
  rw [all]
  refine (withAxes.either (ofName.either ofAxes)).of_same ?_ ?_
  · rintro (⟨n, _, ⟨x, more⟩, _⟩ | n | ⟨_, ⟨x, more⟩, _⟩)
    · exact ⟨.indexed (some n) x more, by simp [Argument.spell], rfl⟩
    · exact ⟨.bare n, rfl, rfl⟩
    · exact ⟨.indexed none x more, by simp [Argument.spell], rfl⟩
  · rintro (n | ⟨_ | n, x, more⟩)
    · exact ⟨.inr (.inl n), rfl, rfl⟩
    · exact ⟨.inr (.inr ((), (x, more), ())), by simp [Argument.spell], rfl⟩
    · exact ⟨.inl (n, (), (x, more), ()), by simp [Argument.spell], rfl⟩

theorem branches_arguments : Branches (rulesOf "__input_variables_star_2")
    (fun xs : { xs : List (Argument Token) // xs ≠ [] } => following .comma Argument.spell xs.1)
    fun xs => .node "__input_variables_star_2" (xs.1.map Argument.tree) := by
  have argument := Branches.parsed branches_argument (by simp [ruleGroups])
  have all : rulesOf "__input_variables_star_2" = [variablesFirst, variablesMore] :=
    rulesOf_eq (by simp [ruleGroups])
  exact branches_repeated _ .comma _ _ argument all rfl rfl (fun _ _ => by with_unfolding_all rfl)
    (by with_unfolding_all rfl)

theorem branches_inputs : Branches (rulesOf "input_variables")
    (fun x : Argument Token × List (Argument Token) =>
      x.1.spell ++ following .comma Argument.spell x.2)
    fun x => ruleNode "input_variables" ((x.1 :: x.2).map Argument.tree) := by
  have all : rulesOf "input_variables" = [inputsOfMany] ++ [inputsOfOne] :=
    rulesOf_eq (by simp [ruleGroups])
  have built : nodeOf inputsOfMany = continued "input_variables" := by with_unfolding_all rfl
  have argument := Branches.parsed branches_argument (by simp [ruleGroups])
  have arguments := Branches.parsed branches_arguments (by simp [ruleGroups])
  have many := Branches.one inputsOfMany
    (fun x => ruleNode "input_variables" ((x.1 :: x.2.1).map Argument.tree))
    (argument.cons arguments) (by
      rintro ⟨x, xs⟩ _ ⟨_, _, rfl, rfl, rfl⟩
      rw [built]
      exact continued_node ..)
  have single := Branches.one inputsOfOne (fun x => ruleNode "input_variables" [x.tree]) argument (by
    rintro x _ rfl
    with_unfolding_all rfl)
  rw [all]
  refine (many.either single).of_same ?_ ?_
  · rintro (⟨x, xs, _⟩ | x)
    · exact ⟨(x, xs), rfl, rfl⟩
    · exact ⟨(x, []), by simp [following], rfl⟩
  · rintro ⟨x, _ | ⟨y, more⟩⟩
    · exact ⟨.inr x, by simp [following], rfl⟩
    · exact ⟨.inl (x, ⟨y :: more, by simp⟩), rfl, rfl⟩

theorem branches_output : Branches (rulesOf "output_variable")
    (fun x : Option (Argument Token) => x.toList.flatMap Argument.spell)
    fun x => ruleNode "output_variable" (x.toList.map Argument.tree) := by
  have all : rulesOf "output_variable" = [outputOfVariable] ++ [outputAbsent] :=
    rulesOf_eq (by simp [ruleGroups])
  have argument := Branches.parsed branches_argument (by simp [ruleGroups])
  have ofVariable := Branches.one outputOfVariable (fun x => ruleNode "output_variable" [x.tree])
    argument (by
      rintro x _ rfl
      with_unfolding_all rfl)
  have absent := Branches.one outputAbsent (fun _ => ruleNode "output_variable" []) .nil (by
    rintro _ _ rfl
    with_unfolding_all rfl)
  rw [all]
  refine (ofVariable.either absent).of_same ?_ ?_
  · rintro (x | _)
    · exact ⟨some x, by simp, rfl⟩
    · exact ⟨none, rfl, rfl⟩
  · rintro (_ | x)
    · exact ⟨.inr (), rfl, rfl⟩
    · exact ⟨.inl x, by simp, rfl⟩

theorem branches_einsum : Branches (rulesOf "einsum") Phrase.spell Phrase.tree := by
  have all : rulesOf "einsum" = [einsumRule] := rulesOf_eq (by simp [ruleGroups])
  have inputs := Branches.parsed branches_inputs (by simp [ruleGroups])
  have output := Branches.parsed branches_output (by simp [ruleGroups])
  have whole := Branches.one einsumRule (fun x => (Phrase.mk x.1.1 x.1.2 x.2.2).tree)
    (inputs.cons ((Parsed.mark .arrow).cons output)) (by
      rintro ⟨⟨x, more⟩, _, out⟩ _ ⟨_, _, rfl, rfl, _, _, rfl, ⟨a, rfl⟩, rfl⟩
      with_unfolding_all rfl)
  rw [all]
  refine whole.of_same ?_ ?_
  · rintro ⟨⟨x, more⟩, _, out⟩
    exact ⟨⟨x, more, out⟩, by simp [Phrase.spell], rfl⟩
  · rintro ⟨x, more, out⟩
    exact ⟨((x, more), (), out), by simp [Phrase.spell], rfl⟩

theorem branches_start : Branches (rulesOf "start") Phrase.spell Phrase.tree := by
  have all : rulesOf "start" = [startRule] := rulesOf_eq (by simp [ruleGroups])
  have einsum := Branches.parsed branches_einsum (by simp [ruleGroups])
  rw [all]
  refine .one _ _ einsum ?_
  rintro x _ rfl
  with_unfolding_all rfl

theorem derives_start_iff {w : List Token} {v : Value} :
    Derives rules semantics ["start"] w [v] ↔
      ∃ e : Phrase Token, Forall₂ Token.Fits w e.spell ∧ e.tree = v := by
  have start := Branches.parsed branches_start (by simp [ruleGroups])
  constructor
  · intro derived
    obtain ⟨e, fits, same⟩ := start.sound derived
    exact ⟨e, fits, (List.singleton_inj.mp same).symm⟩
  · rintro ⟨e, fits, rfl⟩
    obtain ⟨_, derived, rfl⟩ := start.complete e fits
    exact derived

theorem nodeOf_isOk (mem : r ∈ rules) {w : List Token} {vs : List Value}
    (h : Derives rules semantics (r.expansion.map Symbol.name) w vs) :
    ∃ v, nodeOf r vs = .ok v := by
  have build {γ : Type} {X : String} {spell : γ → List (Piece Token)} {tree : γ → Value}
      (branches : Branches (rulesOf X) spell tree) (origin : r.origin.name = X) :
      ∃ v, nodeOf r vs = .ok v := by
    obtain ⟨x, _, built⟩ := branches.sound r (mem_rulesOf.mpr ⟨mem, origin⟩) h
    exact ⟨_, built⟩
  have origin := ruleGroups_spec.2 r mem
  simp only [ruleGroups, List.map_cons, List.map_nil, List.mem_cons, List.not_mem_nil,
    or_false] at origin
  rcases origin with o | o | o | o | o | o | o | o | o | o | o | o | o | o
  · exact build branches_name o
  · exact build branches_ellipsis o
  · exact build branches_factor o
  · exact build branches_factors o
  · exact build branches_product o
  · exact build branches_entry o
  · exact build branches_entries o
  · exact build branches_axes o
  · exact build branches_argument o
  · exact build branches_arguments o
  · exact build branches_inputs o
  · exact build branches_output o
  · exact build branches_einsum o
  · exact build branches_start o

theorem semantics_isTotal : semantics.IsTotal rules where
  token x := ⟨_, rfl⟩
  rule r mem u vs derives := by
    rw [onRule_eq mem]
    exact nodeOf_isOk mem derives

end Expression

end AxisLang
