import AxisLang.Proofs.Alignment

/-! The output stage of an evaluation.
The axes of the output say how the dimensions of a result are joined. On an array of the rank that they
call for, the joining has a result of the same number of elements, so the stage cannot fail after a
contraction. Joining also undoes the splitting of inputs: an array that is split by the shape check
and joined along the axes of its own variable has the shape it had, if its products were consistent. -/
namespace AxisLang

namespace Shape

variable {v w : Variable} {shape : Shape} {σ : String → Nat}

theorem widths_eq_map {axes : List Axis} (solid : ∀ a ∈ axes, a.isEllipsis = false) :
    axes.flatMap (Axis.widths 0) = axes.map fun a => a.flattened.length := by
  rw [List.map_eq_flatMap]
  refine List.flatMap_congr fun a mem => ?_
  cases a with
  | named n => rfl
  | product ns => simp [Axis.widths, Axis.flattened]
  | ellipsis => exact absurd (solid _ mem) (by decide)

theorem rank_eq_sum_widths {rank : Nat} (single : v.axes.count .ellipsis ≤ 1)
    (plain : .ellipsis ∉ v.axes → rank = v.flattened.length)
    (dots : .ellipsis ∈ v.axes → v.flattened.length ≤ rank + 1) :
    rank = (v.axes.flatMap (Axis.widths (rank + 1 - v.flattened.length))).sum := by
  have flat := Axis.length_flatMap_flattened v.axes
  rw [Axis.countP_isEllipsis] at flat
  rw [Axis.sum_widths, Axis.countP_isEllipsis]
  unfold Variable.flattened at plain dots ⊢
  by_cases mem : .ellipsis ∈ v.axes
  · have one : v.axes.count .ellipsis = 1 := Nat.le_antisymm single (List.count_pos_iff.mpr mem)
    have enough := dots mem
    rw [one] at flat ⊢
    omega
  · have rank := plain mem
    rw [List.count_eq_zero.mpr mem] at flat ⊢
    omega

theorem length_names_spread (spares : Nat) (axes : List Axis) :
    ((spread spares axes).flatMap Axis.names).length = (axes.flatMap (Axis.widths spares)).sum := by
  rw [← widths_spread, Axis.sum_widths, Nat.zero_mul, Nat.add_zero]

theorem collapse_spread (spares : Nat) (single : w.axes.countP Axis.isEllipsis ≤ 1) :
    collapse (some w) (((spread spares w.axes).flatMap Axis.names).map σ) =
      .ok ((spread spares w.axes).map (Axis.size σ)) := by
  rw [collapse_eq_collapseAxes spares single]
  · exact collapseAxes_names (solid_spread spares w.axes)
  · rw [List.length_map, length_names_spread]

theorem map_size_of_zip {axes : List Axis} (length : axes.length = shape.length)
    (dims : ∀ d ∈ axes.zip shape, d.2 = d.1.size σ) : axes.map (Axis.size σ) = shape := by
  calc axes.map (Axis.size σ)
      = (axes.zip shape).map fun d => d.1.size σ := by
        conv_lhs => rw [← List.map_fst_zip length.le]
        rw [List.map_map]
        rfl
    _ = (axes.zip shape).map Prod.snd := (List.map_congr_left dims).symm
    _ = shape := List.map_snd_zip length.ge

theorem material_eq_spread (shape : Shape) (early : Early v) (centred : v.Centred) :
    material v shape = spread (shape.length + 1 - v.axes.length) v.axes := by
  cases early with
  | plain solid => rw [material_plain shape solid, spread_of_solid _ solid]
  | dots front mid back axes even solid =>
    obtain rfl := centred.mid_eq_nil axes even solid
    have low : ∀ a ∈ front, a.isEllipsis = false := fun a mem => solid a (List.mem_append_left _ mem)
    have high : ∀ a ∈ back, a.isEllipsis = false := fun a mem => solid a (List.mem_append_right _ mem)
    rw [material_dots shape axes even solid, axes, spread_append, spread_append,
      spread_of_solid _ low, spread_of_solid _ high]
    rfl

theorem length_spread (spares : Nat) (axes : List Axis) :
    (spread spares axes).length + axes.count .ellipsis = axes.length + spares * axes.count .ellipsis := by
  induction axes with
  | nil => rfl
  | cons a axes ih =>
    rw [← List.singleton_append, spread_append, List.length_append, List.count_append, Nat.mul_add,
      List.length_append]
    generalize spread spares axes = rest at ih ⊢
    cases a with
    | ellipsis =>
      simp [spread, Axis.isEllipsis]
      omega
    | _ =>
      simp [spread, Axis.isEllipsis]
      omega

theorem Admits.length_material_centred (admits : Admits v shape) (early : Early v)
    (centred : v.Centred) : (material v shape).length = shape.length := by
  have enough := admits.enough
  have single := admits.single
  have length := length_spread (shape.length + 1 - v.axes.length) v.axes
  rw [Axis.countP_isEllipsis] at single
  rw [material_eq_spread shape early centred] at enough ⊢
  by_cases mem : .ellipsis ∈ v.axes
  · have one : v.axes.count .ellipsis = 1 := Nat.le_antisymm single (List.count_pos_iff.mpr mem)
    rw [one] at length
    omega
  · have rank := admits.rank (List.findIdx?_eq_none_iff.mpr (Axis.solid_of_notMem mem))
    rw [List.count_eq_zero.mpr mem] at length
    omega

theorem Accepts.map_size_material {xs : List (Variable × Shape)} (h : Accepts σ xs)
    (mem : (v, shape) ∈ xs) (centred : v.Centred)
    (products : ∀ ns d, (.product ns, d) ∈ (material v shape).zip shape → d = (ns.map σ).prod) :
    (material v shape).map (Axis.size σ) = shape := by
  refine map_size_of_zip ((h.admits _ mem).length_material_centred (h.early mem) centred) ?_
  rintro ⟨a, d⟩ dim
  cases a with
  | named n => exact h.agrees.named n d (mem_scan mem dim)
  | product ns => exact products ns d dim
  | ellipsis => exact absurd (h.agrees.solid _ (mem_scan mem dim)) Bool.noConfusion

end Shape

namespace Spec

open Contraction Shape

variable {s : Spec} {ts us : List Tensor} {v w : Variable} {t : Tensor} {k : Nat} {n : String}

def foundSizes (s : Spec) (ts : List Tensor) : Sizes :=
  ((checkVariables [] s.inputs (ts.map (·.shape))).toOption.map Prod.snd).getD []

def sizeFound (s : Spec) (ts : List Tensor) (n : String) : Nat :=
  ((s.foundSizes ts).lookup n).getD 0

theorem sizeFound_eq {σ : String → Nat} (h : Accepts σ (s.paired ts))
    (known : n ∈ plainNames (scanOf (s.paired ts))) : s.sizeFound ts n = σ n := by
  have scanned : checkVariables [] s.inputs (ts.map (·.shape)) =
      .ok (_, learned σ (plainNames (scanOf (s.paired ts)))) :=
    checkVariables_eq_ok.mpr ⟨h.admits, rfl, foldlM_step_eq_ok.mpr ⟨σ, h.agrees, rfl⟩⟩
  rw [sizeFound, foundSizes, scanned]
  simp [Except.toOption, lookup_learned, known]

/-- The output stage cannot fail. For an output variable with at most one ellipsis, and a shape with a
dimension for each of its flattened axes, any number of them for an ellipsis, the shape is cut into
neighbouring dimensions, one group for each axis once the ellipsis gives way to its dimensions. A
group has as many dimensions as its axis has factors, the result is the volumes of the groups, and the
number of elements is kept. So whenever the shape check and the contraction have a result, the output
shape and the last reshape have one, and so has the evaluation. -/
theorem outputStage_total :
    (∀ (s : Spec) (v : Variable) (shape : Shape), s.output = some v → v.axes.count .ellipsis ≤ 1 →
      (.ellipsis ∉ v.axes → shape.length = v.flattened.length) →
      (.ellipsis ∈ v.axes → v.flattened.length ≤ shape.length + 1) →
      ∃ groups : List Shape, s.outputShape shape = .ok (groups.map volume) ∧ groups.flatten = shape ∧
        groups.map List.length = (spread (shape.length + 1 - v.flattened.length) v.axes).map
          (fun a => a.flattened.length) ∧
        volume (groups.map volume) = volume shape) ∧
    ∀ (text : String) (s : Spec) (c : Compiled) (ts us : List Tensor) (r : Tensor),
      parse text = .ok s → s.compile = .ok c → s.shapeCheck ts = .ok us → contract c us = .ok r →
      ∃ joined, s.outputShape r.shape = .ok joined ∧ r.reshape? joined = some ⟨joined, r.data⟩ ∧
        einsum text ts = .ok ⟨joined, r.data⟩ := by
  constructor
  · intro s v shape output single plain dots
    have rank := rank_eq_sum_widths single plain dots
    rw [← Axis.countP_isEllipsis] at single
    obtain ⟨groups, joined, flat, lengths⟩ := exists_groups _ single rank
    refine ⟨groups, by rw [outputShape, output, joined], flat, ?_, ?_⟩
    · rw [lengths, ← widths_spread, widths_eq_map (solid_spread _ v.axes)]
    · rw [volume_map_volume, flat]
  · intro text s c ts us r parsed compiled checked contracted
    have formed := wellFormed_of_parse parsed
    obtain rfl : s.compiled = c := Except.ok.inj (formed.compile_eq.symm.trans compiled)
    rw [contract_eq_ok] at contracted
    obtain ⟨joined, output, joins⟩ := formed.exists_outputShape contracted
    refine ⟨joined, output, if_pos joins.volume_eq, ?_⟩
    rw [einsum_eq parsed, formed.evaluate_eq_ok]
    exact ⟨us, r, joined, checked, contracted, output, joins.volume_eq, rfl⟩

theorem outputStage_total_outer :
    (∃ groups : List Shape, groups.flatten = [2, 1, 2, 2] ∧ groups.map List.length = [1, 1, 2] ∧
      groups.map volume = [2, 1, 4]) ∧
    ∃ joined, einsum "a[i], b[j, ..., k] -> [k, ..., i*j]" [.counting [2] 1, .counting [2, 1, 2] 1] =
      .ok ⟨joined, #[1, 3, 2, 6, 2, 4, 4, 8]⟩ := by
  let s : Spec := ⟨[⟨some "a", [.named "i"]⟩, ⟨some "b", [.named "j", .ellipsis, .named "k"]⟩],
    some ⟨none, [.named "k", .ellipsis, .product ["i", "j"]]⟩, [("i", "A"), ("j", "B"), ("k", "C")]⟩
  let c : Compiled := ⟨[[.letter "A"], [.letter "B", .rest, .letter "C"]],
    [.letter "C", .rest, .letter "A", .letter "B"]⟩
  have runs : (parse "a[i], b[j, ..., k] -> [k, ..., i*j]").toOption = some s ∧
      s.compile.toOption = some c ∧
      (s.shapeCheck [.counting [2] 1, .counting [2, 1, 2] 1]).toOption =
        some [.counting [2] 1, .counting [2, 1, 2] 1] ∧
      (contract c [.counting [2] 1, .counting [2, 1, 2] 1]).toOption =
        some ⟨[2, 1, 2, 2], #[1, 3, 2, 6, 2, 4, 4, 8]⟩ := by decide +kernel
  obtain ⟨groups, output, flat, lengths, _⟩ := outputStage_total.1 s _ [2, 1, 2, 2] rfl (by decide)
    (by decide) (by decide)
  obtain ⟨joined, _, _, result⟩ := outputStage_total.2 _ s c _ _ _ (ok_of_toOption runs.1)
    (ok_of_toOption runs.2.1) (ok_of_toOption runs.2.2.1) (ok_of_toOption runs.2.2.2)
  exact ⟨⟨groups, flat, lengths, (Except.ok.inj output).symm⟩, joined, result⟩

/-- Joining undoes splitting. Let the output have the axes of an input variable that has no ellipsis,
or has one in the middle. If arrays pass the shape check, and each product dimension of this
variable's array is the product of the sizes found for its factors, then joining the split array
gives back the shape of the array. -/
theorem outputShape_undoes_split (single : v.axes.count .ellipsis ≤ 1) (centred : v.Centred)
    (input : s.inputs[k]? = some v) (array : ts[k]? = some t) (output : s.output = some w)
    (axes : w.axes = v.axes) (checked : s.shapeCheck ts = .ok us)
    (products : ∀ ns d, (.product ns, d) ∈ (spread (t.rank + 1 - v.axes.length) v.axes).zip t.shape →
      d = (ns.map (s.sizeFound ts)).prod) :
    ∃ u, us[k]? = some u ∧ s.outputShape u.shape = .ok t.shape := by
  obtain ⟨σ, accepts, rfl⟩ := shapeCheck_eq_ok.mp checked
  have pair := mem_paired_of_getElem? input array
  have laid := material_eq_spread t.shape (accepts.early pair) centred
  have sizes := accepts.map_size_material pair centred fun ns d dim => by
    rw [products ns d (laid ▸ dim)]
    congr 1
    refine List.map_congr_left fun n factor => sizeFound_eq accepts (accepts.known _ pair n ?_)
    exact List.mem_flatMap.mpr ⟨_, (List.of_mem_zip dim).1, factor⟩
  refine ⟨⟨(dimNames (v, t.shape)).map σ, t.data⟩, ?_, ?_⟩
  · rw [splitBy, List.getElem?_zipWith, input, array]
  · rw [← Axis.countP_isEllipsis, ← axes] at single
    rw [outputShape, output]
    dsimp only
    rw [dimNames, laid, ← axes, collapse_spread _ single, axes]
    exact congrArg Except.ok (laid ▸ sizes)

theorem outputShape_undoes_split_outer :
    ∃ s : Spec, s.output.map Variable.axes = some [.product ["i", "j"], .ellipsis, .named "k"] ∧
      s.inputs.map Variable.axes =
        [[.product ["i", "j"], .ellipsis, .named "k"], [.named "i"], [.named "j"]] ∧
      ∃ us u, s.shapeCheck [.counting [6, 5, 2] 1, .counting [2] 1, .counting [3] 1] = .ok us ∧
        us[0]? = some u ∧ u.shape = [2, 3, 5, 2] ∧ s.outputShape u.shape = .ok [6, 5, 2] := by
  let v : Variable := ⟨some "x", [.product ["i", "j"], .ellipsis, .named "k"]⟩
  let w : Variable := ⟨none, v.axes⟩
  let s : Spec := ⟨[v, ⟨some "y", [.named "i"]⟩, ⟨some "z", [.named "j"]⟩], some w, []⟩
  let ts : List Tensor := [.counting [6, 5, 2] 1, .counting [2] 1, .counting [3] 1]
  have runs : (s.shapeCheck ts).toOption =
        some [⟨[2, 3, 5, 2], (Tensor.counting [6, 5, 2] 1).data⟩, .counting [2] 1, .counting [3] 1] ∧
      s.sizeFound ts "i" * (s.sizeFound ts "j" * 1) = 6 := by decide +kernel
  have checked := ok_of_toOption runs.1
  have dims : (spread 1 v.axes).zip [6, 5, 2] =
      [(.product ["i", "j"], 6), (spareAxis 0, 5), (.named "k", 2)] := rfl
  obtain ⟨u, entry, output⟩ := outputShape_undoes_split (v := v) (w := w) (k := 0)
    (t := .counting [6, 5, 2] 1) (by decide) (by decide) rfl rfl rfl rfl checked fun ns d mem => by
      change _ ∈ (spread 1 v.axes).zip [6, 5, 2] at mem
      rw [dims] at mem
      obtain ⟨rfl, rfl⟩ : ns = ["i", "j"] ∧ d = 6 := by simpa [spareAxis] using mem
      exact runs.2.symm
  obtain rfl := Option.some.inj entry
  exact ⟨s, rfl, rfl, _, _, checked, rfl, rfl, output⟩

end Spec

end AxisLang
