import AxisLang.Expression.Einsum
import AxisLang.Proofs.Contraction
import AxisLang.Proofs.Reading

/-! Evaluating an expression gives what it means.
An expression without ellipses is compiled with a letter of its own for each axis name. On arrays that
agree with one size for each name it evaluates without error: the arrays pass the check, their products
are split, the contraction sums over the names that the output lacks, and joining the products of the
output leaves every element in its place. -/
namespace AxisLang

theorem Cut.mem_inv {s u : List Char} {ls : List (TokenKind × List Char)} {k : TokenKind}
    (h : Cut s ls) (mem : (k, u) ∈ ls) : k.Spells u ∧ u <:+: s := by
  induction h with
  | nil => cases mem
  | @cons k' u' s ls longest rest ih =>
    rcases List.mem_cons.mp mem with same | mem
    · obtain ⟨rfl, rfl⟩ := Prod.mk.inj same
      exact ⟨longest.spells, [], s, rfl⟩
    · obtain ⟨spells, inside⟩ := ih mem
      exact ⟨spells, inside.trans (List.suffix_append u' s).isInfix⟩

theorem mem_following {ν β : Type} {m : Mark} {spell : β → List (Piece ν)} {xs : List β} {x : β}
    {p : Piece ν} (hx : x ∈ xs) (hp : p ∈ spell x) : p ∈ following m spell xs :=
  List.mem_flatMap.mpr ⟨x, hx, List.mem_cons_of_mem _ hp⟩

theorem Entry.dots_mem_spell {x : Entry String} (h : x.axis.isEllipsis = true) :
    .mark .dots ∈ x.spell := by
  cases x with
  | single x =>
    cases x with
    | name n => exact absurd h (by simp [axis, Axis.isEllipsis])
    | dots => exact List.mem_singleton.mpr rfl
  | product x y more => exact absurd h (by simp [axis, Axis.isEllipsis])

theorem Argument.exists_entry {x : Argument String} {a : Axis} (mem : a ∈ x.toVariable.axes) :
    ∃ y : Entry String, y.axis = a ∧ (x.isMixed = false → y.isMixed = false) ∧
      ∀ p ∈ y.spell, p ∈ x.spell := by
  cases x with
  | bare n => cases mem
  | indexed n x more =>
    obtain ⟨y, hy, rfl⟩ := List.mem_map.mp mem
    refine ⟨y, rfl, fun unmixed => ?_, fun p hp => ?_⟩
    · have all := List.any_eq_false.mp unmixed y hy
      simpa using all
    · have inside : p ∈ x.spell ++ following .comma Entry.spell more := by
        rcases List.mem_cons.mp hy with rfl | hy
        · exact List.mem_append_left _ hp
        · exact List.mem_append_right _ (mem_following hy hp)
      simp only [spell, List.mem_append, List.mem_cons] at inside ⊢
      exact .inl (.inr (.inr inside))

theorem Phrase.mem_spell {e : Phrase String} {x : Argument String} {p : Piece String}
    (hx : x ∈ e.first :: e.more ∨ x ∈ e.output) (hp : p ∈ x.spell) : p ∈ e.spell := by
  rw [spell, List.mem_append]
  rcases hx with hx | hx
  · refine .inl (List.mem_append.mpr ?_)
    rcases List.mem_cons.mp hx with rfl | hx
    · exact .inl hp
    · exact .inr (mem_following hx hp)
  · refine .inr (List.mem_cons_of_mem _ (List.mem_flatMap.mpr ⟨x, ?_, hp⟩))
    rw [Option.mem_toList]
    exact hx

theorem Expression.Reads.no_dots {s : String} {e : Phrase String} (h : Reads s e)
    (plain : ¬ "...".toList <:+: s.toList) : .mark .dots ∉ e.spell := by
  obtain ⟨ls, cut, spelled⟩ := h
  rw [spelled]
  intro mem
  obtain ⟨⟨k, u⟩, lexeme, piece⟩ := List.mem_flatMap.mp mem
  have kind : k = .dots := by
    cases k <;> simp [TokenKind.piece?] at piece ⊢
  obtain ⟨spells, inside⟩ := cut.mem_inv lexeme
  subst kind
  obtain rfl := Option.some.inj spells
  exact plain inside

namespace Spec

open Letters Contraction

/-- What holds of every expression that parses: it has inputs, a letter for each of their axis names,
and no other names in its output. -/
structure WellFormed (s : Spec) : Prop where
  nonempty : s.inputs ≠ []
  few : (inputNames s.inputs).eraseDups.length ≤ 52
  letters : s.letters = ofNames (inputNames s.inputs).eraseDups
  known : ∀ n ∈ outputNames s.output, n ∈ inputNames s.inputs

structure Plain (s : Spec) : Prop where
  inputs : ∀ v ∈ s.inputs, ∀ a ∈ v.axes, a.isEllipsis = false
  output : ∀ v ∈ s.output, ∀ a ∈ v.axes, a.isEllipsis = false

theorem axes_withNames (vs : List Variable) :
    (withNames vs).map Variable.axes = vs.map Variable.axes := by
  rw [withNames, List.map_map]
  change vs.zipIdx.map (Variable.axes ∘ Prod.fst) = _
  rw [← List.map_map, List.zipIdx_map_fst]

theorem inputNames_eq (vs : List Variable) :
    inputNames vs = (vs.map Variable.axes).flatMap fun axes => axes.flatMap Axis.names := by
  rw [List.flatMap_map]
  rfl

theorem inputNames_withNames (vs : List Variable) : inputNames (withNames vs) = inputNames vs := by
  rw [inputNames_eq, axes_withNames, ← inputNames_eq]

theorem wellFormed_of_parse {text : String} {s : Spec} (h : parse text = .ok s) : s.WellFormed := by
  obtain ⟨e, _, few, known, rfl⟩ := Expression.reads_of_parse h
  have names : inputNames (withNames e.inputs) = e.inputNames := inputNames_withNames e.inputs
  exact {
    nonempty := by simp [withNames, Phrase.inputs]
    few := by rwa [names]
    letters := by rw [names]
    known := by rwa [names] }

theorem exists_argument {e : Phrase String} {v : Variable} (mem : v ∈ withNames e.inputs) :
    ∃ x ∈ e.first :: e.more, x.toVariable.axes = v.axes := by
  have axes : v.axes ∈ (withNames e.inputs).map Variable.axes := List.mem_map_of_mem mem
  rw [axes_withNames, Phrase.inputs, List.map_map] at axes
  exact List.mem_map.mp axes

theorem plain_of_parse {text : String} {s : Spec} (h : parse text = .ok s)
    (plain : ¬ "...".toList <:+: text.toList) : s.Plain := by
  obtain ⟨e, reads, _, _, rfl⟩ := Expression.reads_of_parse h
  have absent := reads.no_dots plain
  have solid {x : Argument String} {a : Axis} (hx : x ∈ e.first :: e.more ∨ x ∈ e.output)
      (mem : a ∈ x.toVariable.axes) : a.isEllipsis = false := by
    by_contra dots
    obtain ⟨y, rfl, _, inside⟩ := Argument.exists_entry mem
    exact absent (Phrase.mem_spell hx (inside _ (Entry.dots_mem_spell (by simpa using dots))))
  constructor
  · intro v hv a ha
    obtain ⟨x, hx, same⟩ := exists_argument hv
    exact solid (.inl hx) (same ▸ ha)
  · intro v hv a ha
    obtain ⟨x, hx, rfl⟩ := Option.map_eq_some_iff.mp hv
    exact solid (.inr hx) ha

def letterOf (s : Spec) (n : String) : String :=
  (s.letters.lookup n).getD ""

theorem WellFormed.lookup {s : Spec} (h : s.WellFormed) {n : String} (mem : n ∈ inputNames s.inputs) :
    s.letters.lookup n = some (s.letterOf n) := by
  have found : (s.letters.lookup n).isSome = true := by
    rw [h.letters, isSome_lookup_ofNames h.few, List.mem_eraseDups]
    exact mem
  obtain ⟨a, eq⟩ := Option.isSome_iff_exists.mp found
  rw [letterOf, eq, Option.getD_some]

theorem WellFormed.letterOf_inj {s : Spec} (h : s.WellFormed) :
    ∀ n ∈ inputNames s.inputs, ∀ m ∈ inputNames s.inputs, s.letterOf n = s.letterOf m → n = m := by
  intro n hn m hm same
  have first := h.lookup hn
  have second := h.lookup hm
  rw [← same] at second
  rw [h.letters] at first second
  exact lookup_ofNames_inj first second

theorem WellFormed.subscripts_axis {s : Spec} (h : s.WellFormed) {a : Axis}
    (single : a.isEllipsis = false) (known : ∀ n ∈ a.names, n ∈ inputNames s.inputs) :
    a.subscripts s.letters = .ok (subscriptsOf s.letterOf a.names) := by
  have other : a ≠ .ellipsis := by
    rintro rfl
    exact absurd single (by decide)
  rw [Axis.subscripts.eq_2 _ _ other]
  refine mapM_ok fun n mem => ?_
  rw [h.lookup (known n mem)]

theorem WellFormed.subscripts_variable {s : Spec} (h : s.WellFormed) {v : Variable}
    (single : ∀ a ∈ v.axes, a.isEllipsis = false)
    (known : ∀ n ∈ v.axisNames, n ∈ inputNames s.inputs) :
    v.subscripts s.letters = .ok (subscriptsOf s.letterOf v.axisNames) := by
  have all := mapM_ok fun a mem => h.subscripts_axis (single a mem) fun n name =>
    known n (List.mem_flatMap.mpr ⟨a, mem, name⟩)
  rw [Variable.subscripts, all]
  refine congrArg Except.ok ?_
  rw [Variable.axisNames, subscriptsOf, List.map_flatMap]
  rfl

theorem compile_names {s : Spec} (h : s.WellFormed) (plain : s.Plain) :
    s.compile = .ok ⟨s.inputs.map fun v => subscriptsOf s.letterOf v.axisNames,
      subscriptsOf s.letterOf (outputNames s.output)⟩ := by
  have inputs := mapM_ok fun v mem => h.subscripts_variable (plain.inputs v mem) fun n name =>
    List.mem_flatMap.mpr ⟨v, mem, name⟩
  rw [compile, inputs]
  cases out : s.output with
  | none => rfl
  | some v =>
    have output := h.subscripts_variable (plain.output v out) fun n name =>
      h.known n (by rwa [out])
    simp only [bind, Except.bind, output]
    rfl

theorem collapse_names {σ : String → Nat} {s : Spec} (plain : s.Plain) :
    s.outputShape ((outputNames s.output).map σ) = .ok (s.resultAxes.map (Axis.size σ)) := by
  rw [outputShape, resultAxes]
  cases out : s.output with
  | none => rfl
  | some v =>
    have single := plain.output v out
    have flat : ∀ a ∈ v.flattened, a.isEllipsis = false := by
      intro a mem
      obtain ⟨b, hb, mem⟩ := List.mem_flatMap.mp mem
      cases b with
      | named n => exact List.mem_singleton.mp mem ▸ rfl
      | product ns =>
        obtain ⟨n, _, rfl⟩ := List.mem_map.mp mem
        rfl
      | ellipsis => exact absurd (single _ hb) (by decide)
    rw [Shape.collapse, Shape.ellipsisPlace_plain flat]
    exact Shape.collapseAxes_names single

def splitInputs (σ : String → Nat) (vs : List Variable) (ts : List Tensor) :
    List (List String × Tensor) :=
  vs.zipWith (fun v t => (v.axisNames, ⟨v.axisNames.map σ, t.data⟩)) ts

section

variable {σ : String → Nat} {vs : List Variable} {ts : List Tensor}

theorem shape_splitInputs (fits : List.Forall₂ (fun v t => t.shape = Variable.shape σ v) vs ts) :
    ∀ x ∈ splitInputs σ vs ts, x.2.shape = x.1.map σ := by
  induction fits with
  | nil => simp [splitInputs]
  | cons _ _ ih => exact List.forall_mem_cons.mpr ⟨rfl, ih⟩

theorem map_fst_splitInputs
    (fits : List.Forall₂ (fun v t => t.shape = Variable.shape σ v) vs ts) :
    (splitInputs σ vs ts).map (·.1) = vs.map Variable.axisNames := by
  induction fits with
  | nil => rfl
  | cons _ _ ih => exact congrArg (List.cons _) ih

theorem map_get_splitInputs
    (fits : List.Forall₂ (fun v t => t.shape = Variable.shape σ v) vs ts) (ι : String → Nat) :
    ((splitInputs σ vs ts).map fun x => x.2.get (x.1.map ι)) =
      vs.zipWith (fun v t => t.get (v.index σ ι)) ts := by
  induction fits with
  | nil => rfl
  | @cons v t _ _ shape _ ih =>
    have first : (Tensor.mk (v.axisNames.map σ) t.data).get (v.axisNames.map ι) =
        t.get (v.index σ ι) := by
      rw [Tensor.get, Tensor.get, shape, Variable.shape, Variable.index, flatIndex_map_index]
      rfl
    exact congrArg₂ List.cons first ih

theorem shapes_eq (fits : List.Forall₂ (fun v t => t.shape = Variable.shape σ v) vs ts) :
    ts.map (·.shape) = vs.map (Variable.shape σ) := by
  induction fits with
  | nil => rfl
  | cons shape _ ih => exact congrArg₂ List.cons shape ih

end

theorem shapeCheck_splitInputs {σ : String → Nat} {s : Spec} {ts : List Tensor} (plain : s.Plain)
    (factors : ∀ v ∈ s.inputs, ∀ ns, .product ns ∈ v.axes → ∀ n ∈ ns,
      ∃ w ∈ s.inputs, .named n ∈ w.axes)
    (fits : List.Forall₂ (fun v t => t.shape = Variable.shape σ v) s.inputs ts) :
    s.shapeCheck ts = .ok ((splitInputs σ s.inputs ts).map (·.2)) := by
  rw [shapeCheck, shapes_eq fits, Shape.check_shape plain.inputs factors]
  refine congrArg Except.ok ?_
  rw [splitInputs, List.map_zipWith, List.zipWith_map_left]

theorem evaluate_denotes {σ : String → Nat} {s : Spec} {ts : List Tensor} (h : s.WellFormed)
    (plain : s.Plain) (distinct : (outputNames s.output).Nodup)
    (factors : ∀ v ∈ s.inputs, ∀ ns, .product ns ∈ v.axes → ∀ n ∈ ns,
      ∃ w ∈ s.inputs, .named n ∈ w.axes)
    (fits : List.Forall₂ (fun v t => t.shape = Variable.shape σ v) s.inputs ts) :
    ∃ t, s.evaluate ts = .ok t ∧ t.shape = s.resultAxes.map (Axis.size σ) ∧
      t.data.size = volume t.shape ∧
      ∀ ι : String → Nat, (∀ n ∈ outputNames s.output, ι n < σ n) →
        t.get (s.resultAxes.map (Axis.index σ ι)) = s.denote σ ts ι := by
  have names : Contraction.allNames (splitInputs σ s.inputs ts) = inputNames s.inputs := by
    rw [Contraction.allNames, inputNames, List.flatMap_def, List.flatMap_def,
      map_fst_splitInputs fits]
  have subscripts : (s.inputs.map fun v => subscriptsOf s.letterOf v.axisNames) =
      (splitInputs σ s.inputs ts).map fun x => subscriptsOf s.letterOf x.1 := by
    have each := congrArg (List.map (subscriptsOf s.letterOf)) (map_fst_splitInputs fits)
    rw [List.map_map, List.map_map] at each
    exact each.symm
  have nonempty : splitInputs σ s.inputs ts ≠ [] := by
    intro empty
    have none := map_fst_splitInputs fits
    rw [empty] at none
    exact h.nonempty (List.map_eq_nil_iff.mp none.symm)
  obtain ⟨f, result, values⟩ := contract?_names (σ := σ) nonempty (names ▸ h.letterOf_inj) distinct
    (names ▸ h.known) (shape_splitInputs fits)
  have same : volume (s.resultAxes.map (Axis.size σ)) = volume ((outputNames s.output).map σ) := by
    rw [volume_map_size, flatMap_names_resultAxes]
  refine ⟨⟨s.resultAxes.map (Axis.size σ), (Tensor.ofFn ((outputNames s.output).map σ) f).data⟩,
    ?_, rfl, ?_, fun ι bound => ?_⟩
  · rw [evaluate, compile_names h plain, subscripts]
    simp only [bind, Except.bind, evaluateAs, shapeCheck_splitInputs plain factors fits, contract,
      result]
    have shape : (Tensor.ofFn ((outputNames s.output).map σ) f).shape =
        (outputNames s.output).map σ := rfl
    rw [shape, collapse_names plain]
    simp only [Tensor.reshape?, shape, if_pos same]
    rfl
  · rw [Tensor.size_ofFn, same]
  · have place : flatIndex (s.resultAxes.map (Axis.size σ)) (s.resultAxes.map (Axis.index σ ι)) =
        flatIndex ((outputNames s.output).map σ) ((outputNames s.output).map ι) := by
      rw [flatIndex_map_index, flatMap_names_resultAxes]
    have element := Tensor.get_ofFn f (map_mem_indices bound)
    rw [Tensor.get] at element ⊢
    dsimp only
    rw [place]
    refine element.trans ((values ι bound).trans ?_)
    rw [denote, names]
    congr 2
    funext κ
    rw [productAt, map_get_splitInputs fits]

end Spec

/-- What an expression without ellipses computes. Let every axis name have a size, the output names be
distinct, and every factor of a product in an input also be an axis of some input on its own. On arrays
of the shapes that the sizes tell, evaluation returns an array of the shape that they tell for the
output. Its element at the values of the output names is the meaning of the expression there, and every
index of it comes from such values. -/
theorem einsum_denotes {s : String} {spec : Spec} (accepted : Spec.parse s = .ok spec)
    (plain : ¬ "...".toList <:+: s.toList) (distinct : (Spec.outputNames spec.output).Nodup)
    (factors : ∀ v ∈ spec.inputs, ∀ ns, .product ns ∈ v.axes → ∀ n ∈ ns,
      ∃ w ∈ spec.inputs, .named n ∈ w.axes)
    (σ : String → Nat) (ts : List Tensor)
    (fits : List.Forall₂ (fun v t => t.shape = Variable.shape σ v) spec.inputs ts) :
    ∃ t, einsum s ts = .ok t ∧ t.shape = spec.resultAxes.map (Axis.size σ) ∧
      t.data.size = volume t.shape ∧
      (∀ ι : String → Nat, (∀ n ∈ Spec.outputNames spec.output, ι n < σ n) →
        t.get (spec.resultAxes.map (Axis.index σ ι)) = spec.denote σ ts ι) ∧
      ∀ i ∈ indices t.shape, ∃ ι : String → Nat,
        (∀ n ∈ Spec.outputNames spec.output, ι n < σ n) ∧ spec.resultAxes.map (Axis.index σ ι) = i := by
  obtain ⟨t, result, shape, size, elements⟩ := Spec.evaluate_denotes
    (Spec.wellFormed_of_parse accepted)
    (Spec.plain_of_parse accepted plain) distinct factors fits
  refine ⟨t, ?_, shape, size, elements, fun i mem => ?_⟩
  · rw [einsum, accepted]
    exact result
  · rw [shape] at mem
    rw [← Spec.flatMap_names_resultAxes] at distinct ⊢
    exact exists_map_index_eq distinct mem

theorem einsum_denotes_weighted_rows :
    ∃ t, einsum "M[i*j, k], v[j], w[I] -> [k*i]"
        [.counting [6, 2] 1, .counting [3] 1, .counting [2] 1] = .ok t ∧
      t.shape = [4] ∧ t.get [3] = 128 := by
  have accepted : Spec.parse "M[i*j, k], v[j], w[I] -> [k*i]" = .ok
      ⟨[⟨some "M", [.product ["i", "j"], .named "k"]⟩, ⟨some "v", [.named "j"]⟩,
          ⟨some "w", [.named "i"]⟩],
        some ⟨none, [.product ["k", "i"]]⟩, [("i", "A"), ("j", "B"), ("k", "C")]⟩ :=
    ok_of_toOption (by decide +kernel)
  obtain ⟨t, result, shape, _, elements, _⟩ := einsum_denotes accepted (by decide +kernel)
    (by decide +kernel) (by simp) (fun n => if n = "j" then 3 else 2)
    [.counting [6, 2] 1, .counting [3] 1, .counting [2] 1]
    (.cons (by decide +kernel) (.cons (by decide +kernel) (.cons (by decide +kernel) .nil)))
  refine ⟨t, result, shape.trans (by decide +kernel), ?_⟩
  exact (elements (fun _ => 1) (by decide +kernel)).trans (by decide +kernel)

end AxisLang
