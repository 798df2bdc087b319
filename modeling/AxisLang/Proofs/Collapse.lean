import AxisLang.Proofs.Evaluation
import Mathlib.Data.List.SplitLengths

/-! Joining the dimensions of products in a result.
The axes of the output cut the shape of a contraction into groups of neighbouring dimensions, one
dimension for a name or for each dimension of an ellipsis and one for each factor of a product. Joining
replaces each group by its volume. As the contraction has just that many dimensions, this never fails. -/
namespace AxisLang

namespace Axis

/-- How many dimensions each axis takes, those of an ellipsis counted one by one. -/
def widths (spares : Nat) : Axis → List Nat
  | .named _ => [1]
  | .product ns => [ns.length]
  | .ellipsis => List.replicate spares 1

theorem sum_widths (spares : Nat) (axes : List Axis) :
    (axes.flatMap (widths spares)).sum =
      (axes.flatMap names).length + spares * axes.countP isEllipsis := by
  induction axes with
  | nil => simp
  | cons a axes ih =>
    rw [List.flatMap_cons, List.sum_append, ih, List.flatMap_cons, List.length_append]
    cases a with
    | named n =>
      simp [widths, names, isEllipsis]
      omega
    | product ns =>
      simp [widths, names, isEllipsis]
      omega
    | ellipsis =>
      rw [List.countP_cons_of_pos rfl, Nat.mul_succ]
      simp [widths, names]
      omega

theorem length_flatMap_flattened (axes : List Axis) :
    (axes.flatMap flattened).length = (axes.flatMap names).length + axes.countP isEllipsis := by
  induction axes with
  | nil => rfl
  | cons a axes ih =>
    rw [List.flatMap_cons, List.length_append, ih, List.flatMap_cons, List.length_append]
    cases a with
    | named n =>
      simp [flattened, names, isEllipsis]
      omega
    | product ns =>
      simp [flattened, names, isEllipsis]
      omega
    | ellipsis =>
      rw [List.countP_cons_of_pos rfl]
      simp [flattened, names]
      omega

theorem countP_flattened (axes : List Axis) :
    (axes.flatMap flattened).countP isEllipsis = axes.countP isEllipsis := by
  induction axes with
  | nil => rfl
  | cons a axes ih =>
    have own : a.flattened.countP isEllipsis = [a].countP isEllipsis := by
      cases a with
      | named n => rfl
      | product ns => simp [flattened, isEllipsis, List.countP_map, Function.comp_def]
      | ellipsis => rfl
    rw [List.flatMap_cons, List.countP_append, ih, own, ← List.countP_append]
    rfl

end Axis

theorem volume_map_volume (groups : List Shape) : volume (groups.map volume) = volume groups.flatten := by
  induction groups with
  | nil => rfl
  | cons g groups ih => rw [List.map_cons, volume_cons, ih, List.flatten_cons, volume_append]

namespace Shape

/-- The second shape is the first with neighbouring dimensions joined: those of each product. -/
def Joins (axes : List Axis) (shape joined : Shape) : Prop :=
  ∃ spares, ∃ groups : List Shape, groups.flatten = shape ∧
    groups.map List.length = axes.flatMap (Axis.widths spares) ∧ joined = groups.map volume

theorem Joins.volume_eq {axes : List Axis} {shape joined : Shape} (h : Joins axes shape joined) :
    volume joined = volume shape := by
  obtain ⟨_, groups, rfl, _, rfl⟩ := h
  exact volume_map_volume groups

theorem Joins.eq_of_plain {axes : List Axis} {shape joined : Shape} (h : Joins axes shape joined)
    (plain : ∀ ns, .product ns ∉ axes) : joined = shape := by
  obtain ⟨spares, groups, rfl, lengths, rfl⟩ := h
  have ones : ∀ g ∈ groups, g.length = 1 := by
    intro g mem
    have width : g.length ∈ axes.flatMap (Axis.widths spares) := lengths ▸ List.mem_map_of_mem mem
    obtain ⟨a, ha, own⟩ := List.mem_flatMap.mp width
    cases a with
    | named n => simpa [Axis.widths] using own
    | product ns => exact absurd ha (plain ns)
    | ellipsis => exact (List.mem_replicate.mp own).2
  clear lengths
  induction groups with
  | nil => rfl
  | cons g groups ih =>
    rw [List.forall_mem_cons] at ones
    obtain ⟨k, rfl⟩ := List.length_eq_one_iff.mp ones.1
    rw [List.map_cons, ih ones.2, List.flatten_cons, volume_cons, volume_nil, Nat.mul_one]
    rfl

theorem collapseAxes_eq {axes : List Axis} {shape : Shape} (solid : ∀ a ∈ axes, a.isEllipsis = false)
    (rank : shape.length = (axes.flatMap (Axis.widths 0)).sum) :
    collapseAxes axes shape =
      .ok (((axes.flatMap (Axis.widths 0)).splitLengths shape).map volume) := by
  induction axes generalizing shape with
  | nil => rfl
  | cons a axes ih =>
    rw [List.forall_mem_cons] at solid
    rw [List.flatMap_cons, List.sum_append] at rank
    cases a with
    | named n =>
      cases shape with
      | nil =>
        simp [Axis.widths] at rank
        omega
      | cons k shape =>
        have rest : shape.length = (axes.flatMap (Axis.widths 0)).sum := by
          simp [Axis.widths] at rank
          omega
        rw [collapseAxes, ih solid.2 rest]
        · simp [Axis.widths, List.splitLengths_cons, bind, Except.bind, pure, Except.pure]
        · simp
    | product ns =>
      have rest : (shape.drop ns.length).length = (axes.flatMap (Axis.widths 0)).sum := by
        simp [Axis.widths] at rank
        simp
        omega
      rw [collapseAxes, ih solid.2 rest]
      simp [Axis.widths, List.splitLengths_cons, bind, Except.bind, pure, Except.pure]
    | ellipsis => exact absurd solid.1 (by decide)

def spread (spares : Nat) (axes : List Axis) : List Axis :=
  axes.flatMap fun a => if a.isEllipsis then (List.range spares).map spareAxis else [a]

theorem solid_spread (spares : Nat) (axes : List Axis) :
    ∀ a ∈ spread spares axes, a.isEllipsis = false := by
  intro a mem
  obtain ⟨b, _, inside⟩ := List.mem_flatMap.mp mem
  cases own : b.isEllipsis with
  | true =>
    rw [own, if_pos rfl] at inside
    obtain ⟨j, _, rfl⟩ := List.mem_map.mp inside
    rfl
  | false =>
    rw [own, if_neg (by decide)] at inside
    exact List.mem_singleton.mp inside ▸ own

theorem widths_spread (spares : Nat) (axes : List Axis) :
    (spread spares axes).flatMap (Axis.widths 0) = axes.flatMap (Axis.widths spares) := by
  rw [spread, List.flatMap_assoc]
  refine List.flatMap_congr fun a _ => ?_
  cases a with
  | named n => rfl
  | product ns => simp [Axis.isEllipsis, Axis.widths]
  | ellipsis =>
    have each : ∀ j ∈ List.range spares, Axis.widths 0 (spareAxis j) = [1] := fun _ _ => rfl
    change ((List.range spares).map spareAxis).flatMap (Axis.widths 0) = List.replicate spares 1
    rw [List.flatMap_map, List.flatMap_congr each]
    simp [List.flatMap_def]

theorem spread_append (spares : Nat) (axes more : List Axis) :
    spread spares (axes ++ more) = spread spares axes ++ spread spares more :=
  List.flatMap_append

theorem spread_of_solid (spares : Nat) {axes : List Axis} (solid : ∀ a ∈ axes, a.isEllipsis = false) :
    spread spares axes = axes := by
  conv_rhs => rw [← List.flatMap_singleton' axes]
  refine List.flatMap_congr fun a mem => ?_
  rw [solid a mem]
  rfl

theorem collapse_eq_collapseAxes {v : Variable} {shape : Shape} (spares : Nat)
    (single : v.axes.countP Axis.isEllipsis ≤ 1)
    (rank : shape.length = (v.axes.flatMap (Axis.widths spares)).sum) :
    collapse (some v) shape = collapseAxes (spread spares v.axes) shape := by
  have flat : v.flattened.length = (v.axes.flatMap Axis.names).length + v.axes.countP Axis.isEllipsis :=
    Axis.length_flatMap_flattened v.axes
  have count : v.flattened.countP Axis.isEllipsis = v.axes.countP Axis.isEllipsis :=
    Axis.countP_flattened v.axes
  rw [Axis.sum_widths] at rank
  rw [collapse, ellipsisPlace, if_neg (by omega)]
  cases place : v.flattened.findIdx? Axis.isEllipsis with
  | none =>
    have none : v.axes.countP Axis.isEllipsis = 0 := by
      rw [← count, List.countP_eq_zero]
      intro a mem
      simp [List.findIdx?_eq_none_iff.mp place a mem]
    have solid : ∀ a ∈ v.axes, a.isEllipsis = false := by
      intro a mem
      simpa using List.countP_eq_zero.mp none a mem
    rw [spread_of_solid spares solid]
    rfl
  | some e =>
    have one : v.axes.countP Axis.isEllipsis = 1 := by
      have some : v.flattened.countP Axis.isEllipsis ≠ 0 := by
        rw [Ne, List.countP_eq_zero]
        intro none
        obtain ⟨inside, dots, _⟩ := List.findIdx?_eq_some_iff_getElem.mp place
        exact none _ (List.getElem_mem inside) dots
      omega
    have spare : shape.length + 1 - v.flattened.length = spares := by
      rw [one] at rank flat
      omega
    dsimp only [bind, Except.bind]
    rw [spare]
    rfl

theorem exists_groups {v : Variable} {shape : Shape} (spares : Nat)
    (single : v.axes.countP Axis.isEllipsis ≤ 1)
    (rank : shape.length = (v.axes.flatMap (Axis.widths spares)).sum) :
    ∃ groups : List Shape, collapse (some v) shape = .ok (groups.map volume) ∧ groups.flatten = shape ∧
      groups.map List.length = v.axes.flatMap (Axis.widths spares) := by
  rw [collapse_eq_collapseAxes spares single rank]
  rw [← widths_spread] at rank ⊢
  refine ⟨_, collapseAxes_eq (solid_spread spares v.axes) rank, ?_, ?_⟩
  · exact List.flatten_splitLengths _ _ rank.le
  · exact List.map_splitLengths_length _ _ rank.ge

theorem exists_collapse {v : Variable} {shape : Shape} (spares : Nat)
    (single : v.axes.countP Axis.isEllipsis ≤ 1)
    (rank : shape.length = (v.axes.flatMap (Axis.widths spares)).sum) :
    ∃ joined, collapse (some v) shape = .ok joined ∧ Joins v.axes shape joined := by
  obtain ⟨groups, joined, flat, lengths⟩ := exists_groups spares single rank
  exact ⟨_, joined, spares, groups, flat, lengths, rfl⟩

end Shape

namespace Contraction

theorem length_expand {L : String → String} {names : List String} {axes : List Axis} (spares : Nat)
    (flat : ∀ a ∈ axes, a.IsFlat names) :
    (expand spares (axes.map (Axis.subscript L))).length = (axes.flatMap (Axis.widths spares)).sum := by
  induction axes with
  | nil => rfl
  | cons a axes ih =>
    rw [List.forall_mem_cons] at flat
    have rest := ih flat.2
    rw [expand] at rest ⊢
    rw [List.map_cons, List.flatMap_cons, List.length_append, rest, List.flatMap_cons, List.sum_append]
    cases a with
    | named n => rfl
    | product ns => exact flat.1.elim
    | ellipsis => simp [Axis.subscript, Axis.widths]

theorem restCount_subscript {L : String → String} {names : List String} {axes : List Axis}
    (flat : ∀ a ∈ axes, a.IsFlat names) :
    restCount (axes.map (Axis.subscript L)) = axes.countP Axis.isEllipsis := by
  rw [restCount, List.count, List.countP_map]
  refine List.countP_congr fun a mem => ?_
  cases a with
  | named n => simp [Axis.subscript, Axis.isEllipsis]
  | product ns => exact (flat _ mem).elim
  | ellipsis => simp [Axis.subscript, Axis.isEllipsis]

end Contraction

namespace Spec

open Contraction

theorem WellFormed.exists_outputShape {s : Spec} {us : List Tensor} {r : Tensor} (h : s.WellFormed)
    (contracted : contract? s.compiled us = some r) :
    ∃ joined, s.outputShape r.shape = .ok joined ∧ Shape.Joins s.resultAxes r.shape joined := by
  have contracts := (contract?_eq_some.mp contracted).2.1
  have rank := length_shape_contract? contracted
  have flat := h.isFlat_output
  have single := contracts.single
  rw [compiled, length_expand _ flat] at rank
  rw [compiled, restCount_subscript flat] at single
  rw [outputShape, resultAxes]
  rw [flatOutput] at rank single
  cases out : s.output with
  | none =>
    rw [out] at rank
    have scalar : r.shape = [] := List.length_eq_zero_iff.mp rank
    exact ⟨[], rfl, 0, [], scalar.symm, rfl, rfl⟩
  | some v =>
    rw [out] at rank single
    refine Shape.exists_collapse (mostSpares (s.compiled.inputs.zip us)) ?_ ?_
    · exact (Axis.countP_flattened v.axes).symm.trans_le single
    · rw [rank, Axis.sum_widths, Axis.sum_widths]
      exact congrArg₂ _ (congrArg _ v.names_flattened) (congrArg _ (Axis.countP_flattened v.axes))

theorem WellFormed.exists_evaluate {σ : String → Nat} {s : Spec} {ts : List Tensor} (h : s.WellFormed)
    (accepts : Shape.Accepts σ (s.paired ts)) (count : ts.length = s.inputs.length)
    (contracts : Contracts (s.compiled.inputs.zip (s.splitBy σ ts)) s.compiled.output) :
    ∃ t, s.evaluate ts = .ok t := by
  have terms : s.compiled.inputs.length = (s.splitBy σ ts).length := by
    rw [length_splitBy count]
    exact List.length_map ..
  obtain ⟨r, contracted⟩ := (exists_contract?_iff terms).mpr contracts
  obtain ⟨joined, output, joins⟩ := h.exists_outputShape contracted
  exact ⟨_, h.evaluate_eq_ok.mpr ⟨_, r, joined, shapeCheck_eq_ok.mpr ⟨σ, accepts, rfl⟩, contracted,
    output, joins.volume_eq, rfl⟩⟩

end Spec

end AxisLang
