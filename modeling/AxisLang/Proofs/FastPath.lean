import AxisLang.Proofs.Collapse
import AxisLang.Proofs.Ellipsis

/-! The checked evaluation refines the fast one.
The check reshapes arrays, and may give an ellipsis the wrong dimensions. When a contraction follows,
it has a letter for each dimension, and this leaves no room: without products among the inputs, every
array that passes keeps its shape. -/
namespace AxisLang

namespace Variable

def IsWhole (v : Variable) : Prop :=
  ∀ ns, .product ns ∉ v.axes

theorem IsWhole.flattened_eq {v : Variable} (h : v.IsWhole) : v.flattened = v.axes := by
  rw [flattened]
  conv_rhs => rw [← List.flatMap_singleton' v.axes]
  refine List.flatMap_congr fun a mem => ?_
  cases a with
  | product ns => exact absurd mem (h ns)
  | _ => rfl

end Variable

namespace Shape

theorem product_notMem_spareAxes (spares : Nat) (ns : List String) : .product ns ∉ spareAxes spares := by
  rw [spareAxes, List.mem_map]
  rintro ⟨j, _, eq⟩
  cases eq

theorem product_notMem_material {v : Variable} (shape : Shape) (early : Early v) (whole : v.IsWhole) :
    ∀ ns, .product ns ∉ material v shape := by
  intro ns mem
  cases early with
  | plain solid => exact whole ns (material_plain shape solid ▸ mem)
  | dots front mid back axes even solid =>
    rw [material_dots shape axes even solid, List.mem_append, List.mem_append, List.mem_flatMap] at mem
    rcases mem with mem | ⟨_, _, mem⟩ | mem
    · exact whole ns (by simp [axes, mem])
    · exact product_notMem_spareAxes _ ns mem
    · exact whole ns (by simp [axes, mem])

theorem length_dimNames {v : Variable} {shape : Shape} (solid : ∀ a ∈ material v shape, a.isEllipsis = false)
    (none : ∀ ns, .product ns ∉ material v shape) :
    (dimNames (v, shape)).length = (material v shape).length := by
  have one : ∀ a ∈ material v shape, a.names.length = 1 := by
    intro a mem
    cases a with
    | named n => rfl
    | product ns => exact absurd mem (none ns)
    | ellipsis => exact absurd (solid _ mem) (by decide)
  rw [dimNames, List.length_flatMap, List.map_congr_left one]
  simp

theorem length_flatMap_spareAxes (axes : List Axis) (spares : Nat) :
    (axes.flatMap fun _ => spareAxes spares).length = axes.length * spares := by
  simp [List.length_flatMap, spareAxes]

/-- Of `m + 1` groups of `r` spare dimensions, at most `m + r` in all, `m` or `r - 1` must be zero. -/
theorem rank_eq_of_bounds {e m rank : Nat}
    (letters : 2 * e + m + 1 - 1 ≤ 2 * e + (m + 1) * (rank + 1 - (2 * e + m + 1)))
    (enough : 2 * e + (m + 1) * (rank + 1 - (2 * e + m + 1)) ≤ rank) :
    2 * e + (m + 1) * (rank + 1 - (2 * e + m + 1)) = rank := by
  rcases spare : rank + 1 - (2 * e + m + 1) with _ | _ | r
  · rw [spare] at letters enough
    omega
  · omega
  · rw [spare] at enough
    have more : (m + 1) * (r + 1 + 1) = m * r + 2 * m + r + 2 := by ring
    rcases Nat.eq_zero_or_pos m with rfl | some
    · omega
    · have least : r ≤ m * r := Nat.le_mul_of_pos_left r some
      omega

theorem Admits.length_material {v : Variable} {shape : Shape} (admits : Admits v shape)
    (early : Early v)
    (letters : v.axes.length - v.axes.countP Axis.isEllipsis ≤ (material v shape).length) :
    (material v shape).length = shape.length := by
  have enough := admits.enough
  cases early with
  | plain solid => rw [material_plain shape solid, admits.rank (List.findIdx?_eq_none_iff.mpr solid)]
  | dots front mid back axes even solid =>
    have one : v.axes.countP Axis.isEllipsis = 1 := by
      have others : (front ++ (mid ++ back)).countP Axis.isEllipsis = 0 :=
        List.countP_eq_zero.mpr fun a mem => by simp [solid a mem]
      rw [List.countP_append] at others
      rw [axes, List.countP_append, List.cons_append, List.countP_cons_of_pos rfl]
      omega
    have total : v.axes.length = 2 * front.length + mid.length + 1 := by
      simp only [axes, List.length_append, List.length_cons, even]
      omega
    have length : (material v shape).length =
        2 * front.length + (mid.length + 1) * (shape.length + 1 - (2 * front.length + mid.length + 1)) := by
      rw [material_dots shape axes even solid, total, List.length_append, List.length_append,
        length_flatMap_spareAxes, even, List.length_cons]
      omega
    rw [one, total, length] at letters
    rw [length] at enough ⊢
    exact rank_eq_of_bounds letters enough

end Shape

namespace Spec

open Contraction Shape

theorem splitBy_eq {σ : String → Nat} {s : Spec} {ts : List Tensor}
    (whole : ∀ v ∈ s.inputs, v.IsWhole) (count : ts.length = s.inputs.length)
    (accepts : Accepts σ (s.paired ts))
    (terms : ∀ x ∈ s.compiled.inputs.zip (s.splitBy σ ts), (sparesOf? x.1 x.2.rank).isSome) :
    s.splitBy σ ts = ts := by
  have each : ∀ y ∈ s.inputs.zip ts, (dimNames (y.1, y.2.shape)).map σ = y.2.shape := by
    intro y mem
    have own := mem_paired mem
    have input : y.1 ∈ s.inputs := (List.of_mem_zip mem).1
    have early := accepts.early own
    have none := product_notMem_material y.2.shape early (whole y.1 input)
    refine accepts.split_eq own none ((accepts.admits _ own).length_material early ?_)
    -- a letter for each dimension leaves no dimension to an axis that was replaced
    have letters := letters_le_of_sparesOf? (terms _ (zip_splitBy σ s ts ▸ List.mem_map_of_mem mem))
    rw [termOf, List.length_map, restCount_subscript (isFlat_input input),
      (whole y.1 input).flattened_eq] at letters
    refine letters.trans_eq ?_
    rw [Tensor.rank, List.length_map]
    exact length_dimNames (accepts.solid own) none
  have split : s.splitBy σ ts = (s.inputs.zip ts).map Prod.snd := by
    rw [splitBy, ← List.map_uncurry_zip_eq_zipWith]
    refine List.map_congr_left fun y mem => ?_
    change Tensor.mk _ _ = _
    rw [each y mem]
  rw [split, List.map_snd_zip count.le]

/-- The checked evaluation refines the fast one. Where the inputs have no products and it returns, the
fast evaluation returns as well, with the same elements in the same order. The shapes differ only in
that the dimensions of each product of the output are joined. -/
theorem einsum_refines_einsumFast {text : String} {s : Spec} {ts : List Tensor} {t : Tensor}
    (parsed : parse text = .ok s) (whole : ∀ v ∈ s.inputs, v.IsWhole)
    (count : ts.length = s.inputs.length) (returned : einsum text ts = .ok t) :
    ∃ u, einsumFast text ts = .ok u ∧ u.data = t.data ∧ Joins s.resultAxes u.shape t.shape ∧
      ((∀ ns, .product ns ∉ s.resultAxes) → u = t) := by
  have formed := wellFormed_of_parse parsed
  rw [einsum_eq parsed] at returned
  obtain ⟨us, r, shape, checked, contracted, collapsed, _, rfl⟩ := formed.evaluate_eq_ok.mp returned
  obtain ⟨σ, accepts, rfl⟩ := shapeCheck_eq_ok.mp checked
  rw [splitBy_eq whole count accepts (contract?_eq_some.mp contracted).2.1.terms] at contracted
  obtain ⟨joined, output, joins⟩ := formed.exists_outputShape contracted
  obtain rfl : joined = shape := Except.ok.inj (output.symm.trans collapsed)
  refine ⟨r, ?_, rfl, joins, fun plain => ?_⟩
  · rw [einsumFast_eq parsed, formed.evaluateFast_eq_ok]
    exact contracted
  · rw [joins.eq_of_plain plain]

theorem einsumFast_spread_rows :
    einsum "x[i, ..., j], y[j, k] -> [i*k, ...]" [.counting [2, 3, 2] 1, .counting [2, 2] 1] =
        .ok ⟨[4, 3], #[7, 15, 23, 10, 22, 34, 31, 39, 47, 46, 58, 70]⟩ ∧
      ∃ u, einsumFast "x[i, ..., j], y[j, k] -> [i*k, ...]"
          [.counting [2, 3, 2] 1, .counting [2, 2] 1] = .ok u ∧
        u.data = #[7, 15, 23, 10, 22, 34, 31, 39, 47, 46, 58, 70] ∧
        Joins [.product ["i", "k"], .ellipsis] u.shape [4, 3] := by
  have runs : (parse "x[i, ..., j], y[j, k] -> [i*k, ...]").toOption = some
        ⟨[⟨some "x", [.named "i", .ellipsis, .named "j"]⟩, ⟨some "y", [.named "j", .named "k"]⟩],
          some ⟨none, [.product ["i", "k"], .ellipsis]⟩, [("i", "A"), ("j", "B"), ("k", "C")]⟩ ∧
      (einsum "x[i, ..., j], y[j, k] -> [i*k, ...]"
        [.counting [2, 3, 2] 1, .counting [2, 2] 1]).toOption =
          some ⟨[4, 3], #[7, 15, 23, 10, 22, 34, 31, 39, 47, 46, 58, 70]⟩ := by decide +kernel
  have returned := ok_of_toOption runs.2
  obtain ⟨u, result, data, joins, _⟩ := einsum_refines_einsumFast (ok_of_toOption runs.1)
    (by simp [Variable.IsWhole]) rfl returned
  exact ⟨returned, u, result, data, joins⟩

end Spec

end AxisLang
