import AxisLang.Expression.Shape
import AxisLang.Proofs.Denotation
import AxisLang.Proofs.Results

/-! Arrays whose shapes agree with one size for each axis name pass the check.
The check learns the size of a name at its first plain occurrence. Whatever it has learned agrees with
the given sizes, so no later axis is refused, in whatever order products and their factors come; and
once every factor has occurred on its own, all products can be split. -/
namespace AxisLang

variable {σ : String → Nat}

namespace Shape

def sizesOf (σ : String → Nat) (known : List String) : Sizes :=
  known.map fun n => (n, σ n)

theorem lookup_sizesOf (known : List String) (n : String) :
    (sizesOf σ known).lookup n = if n ∈ known then some (σ n) else none :=
  lookup_map (f := id) fun _ _ h => h

theorem productSize?_sizesOf {known ns : List String} {p : Nat}
    (h : productSize? (sizesOf σ known) ns = some p) : p = (ns.map σ).prod := by
  obtain ⟨ks, all, rfl⟩ := Option.map_eq_some_iff.mp h
  rw [volume_eq_prod]
  congr 1
  clear h
  induction ns generalizing ks with
  | nil => exact (Option.some.inj all).symm
  | cons n ns ih =>
    rw [List.mapM_cons, lookup_sizesOf] at all
    by_cases mem : n ∈ known
    · rw [if_pos mem] at all
      obtain ⟨k, own, all⟩ := Option.bind_eq_some_iff.mp all
      obtain ⟨rest, others, all⟩ := Option.bind_eq_some_iff.mp all
      obtain rfl := Option.some.inj all
      rw [List.map_cons, ← ih rest others, Option.some.inj own]
    · rw [if_neg mem] at all
      cases all

theorem checkAxis_size (σ : String → Nat) (known : List String) {a : Axis} (plain : a.isEllipsis = false) :
    ∃ known', checkAxis (sizesOf σ known) (a.size σ) a = .ok (sizesOf σ known') ∧
      ∀ n, n ∈ known' ↔ n ∈ known ∨ a = .named n := by
  cases a with
  | named n =>
    rw [checkAxis, lookup_sizesOf]
    by_cases mem : n ∈ known
    · refine ⟨known, by simp [mem, Axis.size], fun m => ⟨.inl, ?_⟩⟩
      rintro (h | h)
      · exact h
      · exact Axis.named.inj h ▸ mem
    · refine ⟨known ++ [n], by simp [mem, Axis.size, sizesOf], fun m => ?_⟩
      simp [eq_comm]
  | product ns =>
    refine ⟨known, ?_, by simp⟩
    rw [checkAxis]
    cases size : productSize? (sizesOf σ known) ns with
    | none => rfl
    | some p => exact if_pos (productSize?_sizesOf size)
  | ellipsis => exact absurd plain (by decide)

theorem checkAxes_size (σ : String → Nat) (known : List String) {axes : List Axis}
    (plain : ∀ a ∈ axes, a.isEllipsis = false) :
    ∃ known', checkAxes (sizesOf σ known) axes (axes.map (Axis.size σ)) = .ok (sizesOf σ known') ∧
      ∀ n, n ∈ known' ↔ n ∈ known ∨ .named n ∈ axes := by
  induction axes generalizing known with
  | nil => exact ⟨known, rfl, by simp⟩
  | cons a axes ih =>
    rw [List.forall_mem_cons] at plain
    obtain ⟨next, first, step⟩ := checkAxis_size σ known plain.1
    obtain ⟨last, rest, run⟩ := ih next plain.2
    refine ⟨last, ?_, fun n => ?_⟩
    · rw [List.map_cons, checkAxes, first]
      exact rest
    · rw [run, step, List.mem_cons, or_assoc, eq_comm]

theorem ellipsisPlace_plain {name : Option String} {axes : List Axis}
    (plain : ∀ a ∈ axes, a.isEllipsis = false) : ellipsisPlace name axes = .ok none := by
  have count : axes.countP Axis.isEllipsis = 0 := by
    rw [List.countP_eq_zero]
    intro a mem
    simp [plain a mem]
  have place : axes.findIdx? Axis.isEllipsis = none := List.findIdx?_eq_none_iff.mpr plain
  rw [ellipsisPlace, count, place]
  rfl

theorem checkVariable_shape (σ : String → Nat) (known : List String) {v : Variable}
    (plain : ∀ a ∈ v.axes, a.isEllipsis = false) :
    ∃ known', checkVariable (sizesOf σ known) v (v.shape σ) = .ok (v.axes, sizesOf σ known') ∧
      ∀ n, n ∈ known' ↔ n ∈ known ∨ .named n ∈ v.axes := by
  obtain ⟨known', passed, names⟩ := checkAxes_size σ known plain
  refine ⟨known', ?_, names⟩
  have rank : (v.shape σ).length = v.axes.length := List.length_map ..
  rw [checkVariable, ellipsisPlace_plain plain]
  simp only [bind, Except.bind, rank, ne_eq, not_true_eq_false, decide_false, Bool.and_false,
    materialize]
  rw [Variable.shape, passed]
  rfl

theorem checkVariables_shape (σ : String → Nat) (known : List String) {vs : List Variable}
    (plain : ∀ v ∈ vs, ∀ a ∈ v.axes, a.isEllipsis = false) :
    ∃ known', checkVariables (sizesOf σ known) vs (vs.map (Variable.shape σ)) =
        .ok (vs.map Variable.axes, sizesOf σ known') ∧
      ∀ n, n ∈ known' ↔ n ∈ known ∨ ∃ v ∈ vs, .named n ∈ v.axes := by
  induction vs generalizing known with
  | nil => exact ⟨known, rfl, by simp⟩
  | cons v vs ih =>
    rw [List.forall_mem_cons] at plain
    obtain ⟨next, first, step⟩ := checkVariable_shape σ known plain.1
    obtain ⟨last, rest, run⟩ := ih next plain.2
    refine ⟨last, ?_, fun n => ?_⟩
    · rw [List.map_cons, checkVariables, first]
      simp only [bind, Except.bind, rest]
      rfl
    · rw [run, step, List.exists_mem_cons_iff, or_assoc]

theorem splitShape_sizesOf {known : List String} {axes : List Axis}
    (all : ∀ n ∈ axes.flatMap Axis.names, n ∈ known) :
    splitShape (sizesOf σ known) axes = .ok ((axes.flatMap Axis.names).map σ) := by
  refine mapM_ok fun n mem => ?_
  rw [lookup_sizesOf, if_pos (all n mem)]

theorem splitAll_sizesOf {known : List String} {vs : List Variable}
    (all : ∀ v ∈ vs, ∀ n ∈ v.axisNames, n ∈ known) :
    splitAll (sizesOf σ known) (vs.map Variable.axes) (vs.map (Variable.shape σ)) =
      .ok (vs.map fun v => v.axisNames.map σ) := by
  induction vs with
  | nil => rfl
  | cons v vs ih =>
    rw [List.forall_mem_cons] at all
    have same : volume ((v.axes.flatMap Axis.names).map σ) = volume (v.shape σ) :=
      (volume_map_size v.axes).symm
    have split : splitTo (sizesOf σ known) v.axes (v.shape σ) = .ok (v.axisNames.map σ) := by
      rw [splitTo, splitShape_sizesOf all.1]
      simp only [bind, Except.bind, if_pos same]
      rfl
    rw [List.map_cons, List.map_cons, splitAll, split, ih all.2]
    rfl

theorem check_shape {vs : List Variable} (plain : ∀ v ∈ vs, ∀ a ∈ v.axes, a.isEllipsis = false)
    (factors : ∀ v ∈ vs, ∀ ns, .product ns ∈ v.axes → ∀ n ∈ ns, ∃ w ∈ vs, .named n ∈ w.axes) :
    check vs (vs.map (Variable.shape σ)) = .ok (vs.map fun v => v.axisNames.map σ) := by
  obtain ⟨known, passed, names⟩ := checkVariables_shape σ [] plain
  have all : ∀ v ∈ vs, ∀ n ∈ v.axisNames, n ∈ known := by
    intro v hv n hn
    obtain ⟨a, ha, name⟩ := List.mem_flatMap.mp hn
    refine (names n).mpr (.inr ?_)
    cases a with
    | named m =>
      obtain rfl := List.mem_singleton.mp name
      exact ⟨v, hv, ha⟩
    | product ns => exact factors v hv ns ha n name
    | ellipsis => cases name
  have start : checkVariables [] vs (vs.map (Variable.shape σ)) =
      .ok (vs.map Variable.axes, sizesOf σ known) := passed
  rw [check, start]
  exact splitAll_sizesOf all

theorem collapseAxes_names {axes : List Axis} (plain : ∀ a ∈ axes, a.isEllipsis = false) :
    collapseAxes axes ((axes.flatMap Axis.names).map σ) = .ok (axes.map (Axis.size σ)) := by
  induction axes with
  | nil => rfl
  | cons a axes ih =>
    rw [List.forall_mem_cons] at plain
    cases a with
    | named n =>
      have rest := ih plain.2
      simp only [List.flatMap_cons, Axis.names, List.singleton_append, List.map_cons, collapseAxes]
      rw [rest]
      rfl
    | product ns =>
      have front : (((ns ++ axes.flatMap Axis.names).map σ).take ns.length) = ns.map σ := by simp
      have back : (((ns ++ axes.flatMap Axis.names).map σ).drop ns.length) =
          (axes.flatMap Axis.names).map σ := by simp
      simp only [List.flatMap_cons, Axis.names, collapseAxes]
      rw [front, back, ih plain.2, volume_eq_prod]
      rfl
    | ellipsis => exact absurd plain.1 (by decide)

end Shape

end AxisLang
