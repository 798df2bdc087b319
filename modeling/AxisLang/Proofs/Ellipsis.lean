import AxisLang.Proofs.AcceptedShapes

/-! Variables with an ellipsis.
On an array, the axes from the ellipsis up to as many axes before the end as there are before the
ellipsis are each replaced by all the spare dimensions. -/
namespace AxisLang

theorem Axis.countP_isEllipsis (axes : List Axis) : axes.countP isEllipsis = axes.count .ellipsis := by
  rw [List.count]
  refine List.countP_congr fun a _ => ?_
  cases a <;> simp [isEllipsis]

theorem Axis.solid_of_notMem {axes : List Axis} (plain : .ellipsis ∉ axes) :
    ∀ a ∈ axes, a.isEllipsis = false := by
  intro a mem
  cases a with
  | ellipsis => exact absurd mem plain
  | _ => rfl

namespace Shape

def spareAxes (spares : Nat) : List Axis :=
  (List.range spares).map spareAxis

theorem solid_spareAxes (spares : Nat) : ∀ a ∈ spareAxes spares, a.isEllipsis = false := by
  intro a mem
  obtain ⟨j, _, rfl⟩ := List.mem_map.mp mem
  rfl

theorem flatMap_zipIdx {f : Axis × Nat → List Axis} {g : Axis → List Axis} {axes : List Axis} {start : Nat}
    (each : ∀ a i, (a, i) ∈ axes.zipIdx start → f (a, i) = g a) :
    (axes.zipIdx start).flatMap f = axes.flatMap g := by
  have same : (axes.zipIdx start).flatMap f = (axes.zipIdx start).flatMap fun x => g x.1 :=
    List.flatMap_congr fun x mem => each x.1 x.2 mem
  rw [same, ← List.flatMap_map Prod.fst g, List.zipIdx_map_fst]

theorem materialize_append {front mid back : List Axis} {rank : Nat} (same : back.length = front.length) :
    materialize (front ++ (mid ++ back)) (some front.length) rank =
      front ++ (mid.flatMap (fun _ => spareAxes (rank + 1 - (front ++ (mid ++ back)).length)) ++ back) := by
  rw [materialize, List.zipIdx_append, List.zipIdx_append, List.flatMap_append, List.flatMap_append]
  congr 1
  · rw [flatMap_zipIdx (g := fun a => [a]), List.flatMap_singleton']
    intro a i mem
    have place := List.mem_zipIdx mem
    simp [show i < front.length by omega]
  · congr 1
    · refine flatMap_zipIdx fun a i mem => ?_
      have place := List.mem_zipIdx mem
      simp only [List.length_append, same]
      rw [if_neg (by simp; omega)]
      rfl
    · rw [flatMap_zipIdx (g := fun a => [a]), List.flatMap_singleton']
      intro a i mem
      have place := List.mem_zipIdx mem
      simp only [List.length_append, same]
      rw [if_pos (by simp; omega)]

theorem exists_of_findIdx? {axes : List Axis} {e : Nat} (place : axes.findIdx? Axis.isEllipsis = some e) :
    ∃ front rest, axes = front ++ .ellipsis :: rest ∧ front.length = e := by
  obtain ⟨inside, dots, _⟩ := List.findIdx?_eq_some_iff_getElem.mp place
  have axis : axes[e] = .ellipsis := by
    cases own : axes[e] with
    | ellipsis => rfl
    | _ => rw [own] at dots; cases dots
  refine ⟨axes.take e, axes.drop (e + 1), ?_, List.length_take_of_le inside.le⟩
  rw [← axis, ← List.drop_eq_getElem_cons inside, List.take_append_drop]

theorem ellipsis_mem_material {v : Variable} {shape : Shape} {e : Nat}
    (place : v.axes.findIdx? Axis.isEllipsis = some e) (late : v.axes.length ≤ 2 * e) :
    .ellipsis ∈ material v shape := by
  obtain ⟨front, rest, axes, rfl⟩ := exists_of_findIdx? place
  rw [material, place, materialize, List.mem_flatMap]
  refine ⟨(.ellipsis, front.length), ?_, ?_⟩
  · simp [List.mk_mem_zipIdx_iff_getElem?, axes]
  · simp [show v.axes.length ≤ front.length + front.length by omega]

theorem findIdx?_dots {v : Variable} {front mid back : List Axis}
    (axes : v.axes = front ++ ((.ellipsis :: mid) ++ back))
    (solid : ∀ a ∈ front ++ (mid ++ back), a.isEllipsis = false) :
    v.axes.findIdx? Axis.isEllipsis = some front.length := by
  have none : front.findIdx? Axis.isEllipsis = none :=
    List.findIdx?_eq_none_iff.mpr fun a mem => solid a (List.mem_append_left _ mem)
  rw [axes, List.findIdx?_append, none, List.cons_append, List.findIdx?_cons]
  simp [Axis.isEllipsis]

/-- A variable without an ellipsis, or with one that is followed by at least as many axes as come
before it. -/
inductive Early (v : Variable) : Prop where
  | plain (solid : ∀ a ∈ v.axes, a.isEllipsis = false)
  | dots (front mid back : List Axis) (axes : v.axes = front ++ ((.ellipsis :: mid) ++ back))
      (even : back.length = front.length) (solid : ∀ a ∈ front ++ (mid ++ back), a.isEllipsis = false)

theorem material_plain {v : Variable} (shape : Shape) (solid : ∀ a ∈ v.axes, a.isEllipsis = false) :
    material v shape = v.axes := by
  rw [material, List.findIdx?_eq_none_iff.mpr solid]
  rfl

/-- The spare axes come once for the ellipsis, and once more for each axis that is replaced with it. -/
theorem material_dots {v : Variable} (shape : Shape) {front mid back : List Axis}
    (axes : v.axes = front ++ ((.ellipsis :: mid) ++ back)) (even : back.length = front.length)
    (solid : ∀ a ∈ front ++ (mid ++ back), a.isEllipsis = false) :
    material v shape = front ++ ((Axis.ellipsis :: mid).flatMap
      (fun _ => spareAxes (shape.length + 1 - v.axes.length)) ++ back) := by
  rw [material, findIdx?_dots axes solid, axes]
  exact materialize_append even

theorem early_of_solid {v : Variable} {shape : Shape} (single : v.axes.countP Axis.isEllipsis ≤ 1)
    (solid : ∀ a ∈ material v shape, a.isEllipsis = false) : Early v := by
  cases place : v.axes.findIdx? Axis.isEllipsis with
  | none => exact .plain (List.findIdx?_eq_none_iff.mp place)
  | some e =>
    have early : 2 * e < v.axes.length := by
      by_contra late
      exact absurd (solid _ (ellipsis_mem_material place (by omega))) (by decide)
    obtain ⟨front, rest, axes, rfl⟩ := exists_of_findIdx? place
    obtain ⟨mid, back, rfl, even⟩ : ∃ mid back, rest = mid ++ back ∧ back.length = front.length := by
      refine ⟨_, _, (List.take_append_drop (rest.length - front.length) rest).symm, ?_⟩
      rw [axes, List.length_append, List.length_cons] at early
      rw [List.length_drop]
      omega
    have alone : (front ++ (mid ++ back)).countP Axis.isEllipsis = 0 := by
      rw [axes, List.countP_append, List.countP_cons_of_pos rfl] at single
      rw [List.countP_append]
      omega
    exact .dots front mid back axes even fun a mem => by simpa using List.countP_eq_zero.mp alone a mem

theorem exists_zip_of_mem {axes : List Axis} {shape : Shape} {a : Axis}
    (enough : axes.length ≤ shape.length) (mem : a ∈ axes) : ∃ k, (a, k) ∈ axes.zip shape := by
  obtain ⟨i, inside, rfl⟩ := List.getElem_of_mem mem
  refine ⟨shape[i], List.mem_iff_getElem.mpr ⟨i, ?_, List.getElem_zip⟩⟩
  rw [List.length_zip]
  omega

theorem zip_map_size {σ : String → Nat} (axes : List Axis) :
    axes.zip (axes.map (Axis.size σ)) = axes.map fun a => (a, a.size σ) := by
  simpa using List.zip_map' (f := id) (g := Axis.size σ) (l := axes)

theorem map_names_of_zip {σ : String → Nat} {axes : List Axis} {shape : Shape}
    (length : axes.length = shape.length)
    (dims : ∀ d ∈ axes.zip shape, ∃ n, d.1 = .named n ∧ d.2 = σ n) :
    (axes.flatMap Axis.names).map σ = shape := by
  induction axes generalizing shape with
  | nil => exact (List.length_eq_zero_iff.mp length.symm).symm
  | cons a axes ih =>
    cases shape with
    | nil => cases length
    | cons k shape =>
      rw [List.zip_cons_cons, List.forall_mem_cons] at dims
      obtain ⟨⟨n, name, size⟩, rest⟩ := dims
      dsimp only at name size
      subst name size
      exact congrArg (σ n :: ·) (ih (Nat.succ.inj length) rest)

namespace Accepts

variable {σ : String → Nat} {xs : List (Variable × Shape)} {x : Variable × Shape}

theorem mem_scan {d : Axis × Nat} (mem : x ∈ xs) (dim : d ∈ (material x.1 x.2).zip x.2) : d ∈ scanOf xs :=
  List.mem_flatMap.mpr ⟨x, mem, dim⟩

theorem solid (h : Accepts σ xs) (mem : x ∈ xs) : ∀ a ∈ material x.1 x.2, a.isEllipsis = false := by
  intro a axis
  obtain ⟨k, dim⟩ := exists_zip_of_mem (h.admits x mem).enough axis
  exact h.agrees.solid (a, k) (mem_scan mem dim)

theorem early (h : Accepts σ xs) (mem : x ∈ xs) : Early x.1 :=
  early_of_solid (h.admits x mem).single (h.solid mem)

theorem split_eq (h : Accepts σ xs) (mem : x ∈ xs) (whole : ∀ ns, .product ns ∉ material x.1 x.2)
    (length : (material x.1 x.2).length = x.2.length) : (dimNames x).map σ = x.2 := by
  refine map_names_of_zip length ?_
  rintro ⟨a, k⟩ dim
  cases a with
  | named n => exact ⟨n, rfl, h.agrees.named n k (mem_scan mem dim)⟩
  | product ns => exact absurd (List.of_mem_zip dim).1 (whole ns)
  | ellipsis => exact absurd (h.agrees.solid _ (mem_scan mem dim)) Bool.noConfusion

end Accepts

end Shape

end AxisLang
