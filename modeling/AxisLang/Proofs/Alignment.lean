import AxisLang.Proofs.Collapse
import AxisLang.Proofs.Ellipsis
import AxisLang.Proofs.SpelledAxes

/-! Two readings of an ellipsis.
The check names the dimensions of an ellipsis from the left, and takes as many axes after it as before
it for kept. The contraction aligns them at the right. The two agree if every ellipsis stands in the
middle of its variable and if the dimensions, counted from the right, can be stretched to each other. -/
namespace AxisLang

/-- As many axes after the ellipsis as before it. -/
def Variable.Centred (v : Variable) : Prop :=
  ∀ e ∈ v.axes.findIdx? Axis.isEllipsis, v.axes.length = 2 * e + 1

instance (v : Variable) : Decidable v.Centred :=
  inferInstanceAs (Decidable (∀ e ∈ v.axes.findIdx? Axis.isEllipsis, v.axes.length = 2 * e + 1))

theorem Variable.Centred.mid_eq_nil {v : Variable} {front mid back : List Axis} (centred : v.Centred)
    (axes : v.axes = front ++ ((.ellipsis :: mid) ++ back)) (even : back.length = front.length)
    (solid : ∀ a ∈ front ++ (mid ++ back), a.isEllipsis = false) : mid = [] := by
  have middle := centred front.length (Shape.findIdx?_dots axes solid)
  rw [axes] at middle
  simp only [List.length_append, List.length_cons, even] at middle
  exact List.length_eq_zero_iff.mp (by omega)

namespace Shape

/-- The dimensions that the ellipsis of a variable stands for. -/
def spareDims (v : Variable) (shape : Shape) : Shape :=
  match v.axes.findIdx? Axis.isEllipsis with
  | none => []
  | some e => (shape.drop e).take (shape.length + 1 - v.axes.length)

/-- Counted from the right, any two dimensions of ellipses are equal, or one of them is one. -/
def Aligned (xs : List (Variable × Shape)) : Prop :=
  ∀ x ∈ xs, ∀ y ∈ xs, ∀ k n m : Nat, (spareDims x.1 x.2).reverse[k]? = some n →
    (spareDims y.1 y.2).reverse[k]? = some m → n = m ∨ n = 1 ∨ m = 1

/-- The axes before and after the place of an ellipsis, and the dimensions split accordingly. -/
structure Parts (σ : String → Nat) (v : Variable) (shape : Shape) (front dots back : List Axis) :
    Prop where
  axes : v.axes = front ++ (dots ++ back)
  solid : ∀ a ∈ front ++ back, a.isEllipsis = false
  dots : dots = [] ∧ spareDims v shape = [] ∨ dots = [.ellipsis]
  dims : (dimNames (v, shape)).map σ =
    (front.flatMap Axis.names).map σ ++ (spareDims v shape ++ (back.flatMap Axis.names).map σ)

theorem names_spareAxes {σ : String → Nat} {spares : Nat} {shape : Shape}
    (length : shape.length = spares)
    (dims : ∀ d ∈ (spareAxes spares).zip shape, ∃ n, d.1 = .named n ∧ d.2 = σ n) :
    ((spareAxes spares).flatMap Axis.names).map σ = shape := by
  refine map_names_of_zip ?_ dims
  rw [spareAxes, List.length_map, List.length_range, length]

theorem Accepts.exists_parts {σ : String → Nat} {xs : List (Variable × Shape)} {v : Variable}
    {shape : Shape} (h : Accepts σ xs) (mem : (v, shape) ∈ xs) (centred : v.Centred) :
    ∃ front dots back, Parts σ v shape front dots back := by
  have admits := h.admits _ mem
  cases h.early mem with
  | plain solid =>
    have none : v.axes.findIdx? Axis.isEllipsis = none := List.findIdx?_eq_none_iff.mpr solid
    refine ⟨v.axes, [], [], by simp, by simpa using solid, .inl ⟨rfl, ?_⟩, ?_⟩
    · rw [spareDims, none]
    · simp [spareDims, none, dimNames, material_plain shape solid]
  | dots front mid back axes even solid =>
    have place := findIdx?_dots axes solid
    have middle := centred front.length place
    obtain rfl := centred.mid_eq_nil axes even solid
    have enough := admits.enough
    dsimp only at enough
    have spare : spareDims v shape = (shape.drop front.length).take (shape.length + 1 - v.axes.length) := by
      rw [spareDims, place]
    have laid := material_dots shape axes even solid
    rw [List.flatMap_cons, List.flatMap_nil, List.append_nil] at laid
    generalize spares : shape.length + 1 - v.axes.length = r at laid spare
    refine ⟨front, [.ellipsis], back, axes, solid, .inr rfl, ?_⟩
    have total : shape.length = front.length + (r + back.length) := by
      rw [laid] at enough
      simp only [List.length_append, spareAxes, List.length_map, List.length_range] at enough
      omega
    have cut : shape = shape.take front.length ++ (spareDims v shape ++ shape.drop (front.length + r)) := by
      rw [spare, ← List.drop_drop, List.take_append_drop, List.take_append_drop]
    have length : (spareDims v shape).length = r := by
      rw [spare, List.length_take, List.length_drop]
      omega
    have zipped : (material v shape).zip shape = front.zip (shape.take front.length) ++
        ((spareAxes r).zip (spareDims v shape) ++ back.zip (shape.drop (front.length + r))) := by
      conv_lhs => rw [laid, cut]
      rw [List.zip_append, List.zip_append]
      · rw [spareAxes, List.length_map, List.length_range, length]
      · rw [List.length_take]
        omega
    have names : ((spareAxes r).flatMap Axis.names).map σ = spareDims v shape := by
      refine names_spareAxes length fun d dim => ?_
      obtain ⟨a, k⟩ := d
      obtain ⟨j, _, rfl⟩ := List.mem_map.mp (List.of_mem_zip dim).1
      have scanned : (spareAxis j, k) ∈ (material v shape).zip shape := by
        rw [zipped]
        exact List.mem_append_right _ (List.mem_append_left _ dim)
      exact ⟨_, rfl, h.agrees.named _ k (mem_scan mem scanned)⟩
    rw [dimNames, laid, List.flatMap_append, List.flatMap_append, List.map_append, List.map_append, names]

open Contraction

section Parts

variable {L : String → String} {σ : String → Nat} {v : Variable} {shape : Shape}
  {front dots back : List Axis}

theorem subscripts_of_solid {axes : List Axis} (solid : ∀ a ∈ axes, a.isEllipsis = false) :
    (axes.flatMap Axis.flattened).map (Axis.subscript L) = subscriptsOf L (axes.flatMap Axis.names) := by
  rw [subscriptsOf, List.map_flatMap, List.map_flatMap]
  refine List.flatMap_congr fun a mem => ?_
  cases a with
  | named n => rfl
  | product ns => simp [Axis.flattened, Axis.names, Axis.subscript]
  | ellipsis => exact absurd (solid _ mem) (by decide)

theorem Parts.subscripts_eq (h : Parts σ v shape front dots back) :
    v.flattened.map (Axis.subscript L) = subscriptsOf L (front.flatMap Axis.names) ++
      (dots.map (Axis.subscript L) ++ subscriptsOf L (back.flatMap Axis.names)) := by
  have flat : dots.flatMap Axis.flattened = dots := by
    rcases h.dots with ⟨rfl, _⟩ | rfl <;> rfl
  rw [Variable.flattened, h.axes, List.flatMap_append, List.flatMap_append, flat, List.map_append,
    List.map_append, subscripts_of_solid fun a mem => h.solid a (List.mem_append_left _ mem),
    subscripts_of_solid fun a mem => h.solid a (List.mem_append_right _ mem)]

theorem Parts.axisNames_eq (h : Parts σ v shape front dots back) :
    v.axisNames = front.flatMap Axis.names ++ back.flatMap Axis.names := by
  have none : dots.flatMap Axis.names = [] := by
    rcases h.dots with ⟨rfl, _⟩ | rfl <;> rfl
  rw [Variable.axisNames, h.axes, List.flatMap_append, List.flatMap_append, none, List.nil_append]

theorem Parts.sparesOf? (h : Parts σ v shape front dots back) :
    sparesOf? (v.flattened.map (Axis.subscript L)) ((dimNames (v, shape)).map σ).length =
      some (spareDims v shape).length := by
  have dims := congrArg List.length h.dims
  simp only [List.length_append, List.length_map] at dims
  have letters (ns : List String) : (subscriptsOf L ns).length = ns.length := List.length_map ..
  have none (ns : List String) : (subscriptsOf L ns).count .rest = 0 := restCount_subscriptsOf ns
  rw [h.subscripts_eq, List.length_map, dims, Contraction.sparesOf?, restCount]
  simp only [List.count_append, none, List.length_append, letters]
  rcases h.dots with ⟨rfl, empty⟩ | rfl
  · simp [empty]
  · simp [Axis.subscript]
    omega

theorem mem_zip_spares {spares : Shape} {d : Dim} {n : Nat} :
    (d, n) ∈ ((List.range spares.length).reverse.map Dim.spare).zip spares ↔
      ∃ k, d = .spare k ∧ spares.reverse[k]? = some n := by
  have turned : ((List.range spares.length).reverse.map Dim.spare).zip spares =
      (((List.range spares.length).map Dim.spare).zip spares.reverse).reverse := by
    simp only [List.zip_eq_zipWith]
    rw [List.reverse_zipWith (by simp), List.reverse_reverse, List.map_reverse]
  rw [turned, List.mem_reverse, List.mem_iff_getElem?]
  constructor
  · rintro ⟨k, entry⟩
    obtain ⟨index, size⟩ := List.getElem?_zip_eq_some.mp entry
    rw [List.getElem?_map, Option.map_eq_some_iff] at index
    obtain ⟨j, found, rfl⟩ := index
    obtain ⟨_, rfl⟩ := List.getElem?_eq_some_iff.mp found
    exact ⟨k, by rw [List.getElem_range], size⟩
  · rintro ⟨k, rfl, size⟩
    refine ⟨k, List.getElem?_zip_eq_some.mpr ⟨?_, size⟩⟩
    have bound := (List.getElem?_eq_some_iff.mp size).1
    rw [List.length_reverse] at bound
    simp [bound]

theorem Parts.mem_entries (h : Parts σ v shape front dots back) {d : Dim} {n : Nat} :
    (d, n) ∈ (expand (spareDims v shape).length (v.flattened.map (Axis.subscript L))).zip
        ((dimNames (v, shape)).map σ) ↔
      (∃ a ∈ v.axisNames, d = dimOf L a ∧ n = σ a) ∨
        ∃ k, d = .spare k ∧ (spareDims v shape).reverse[k]? = some n := by
  have rest : expand (spareDims v shape).length (dots.map (Axis.subscript L)) =
      (List.range (spareDims v shape).length).reverse.map .spare := by
    rcases h.dots with ⟨rfl, empty⟩ | rfl
    · rw [empty]
      rfl
    · exact List.append_nil _
  have letters (ns : List String) : ((ns.map (dimOf L)).zip (ns.map σ)) =
      ns.map fun a => (dimOf L a, σ a) := List.zip_map' ..
  have append (ss tt : List Subscript) (k : Nat) : expand k (ss ++ tt) = expand k ss ++ expand k tt :=
    List.flatMap_append
  rw [h.subscripts_eq, h.dims, h.axisNames_eq, append, append, rest, expand_subscriptsOf,
    expand_subscriptsOf, List.zip_append (by simp), List.zip_append (by simp), letters, letters,
    List.mem_append, List.mem_append, mem_zip_spares]
  simp only [List.mem_map, List.mem_append, Prod.mk.injEq]
  constructor
  · rintro (⟨a, mem, rfl, rfl⟩ | spare | ⟨a, mem, rfl, rfl⟩)
    · exact .inl ⟨a, .inl mem, rfl, rfl⟩
    · exact .inr spare
    · exact .inl ⟨a, .inr mem, rfl, rfl⟩
  · rintro (⟨a, mem | mem, rfl, rfl⟩ | spare)
    · exact .inl ⟨a, mem, rfl, rfl⟩
    · exact .inr (.inr ⟨a, mem, rfl, rfl⟩)
    · exact .inr (.inl spare)

end Parts

end Shape

namespace Contraction

theorem lt_mostSpares {xs : List (List Subscript × Tensor)} {k : Nat} :
    k < mostSpares xs ↔ ∃ x ∈ xs, k < spareRank x := by
  rw [mostSpares]
  induction xs with
  | nil => simp
  | cons x xs ih =>
    rw [List.map_cons, List.foldr_cons, lt_max_iff, ih]
    simp only [List.exists_mem_cons_iff]

theorem nodup_of_isFlat {names : List String} {axes : List Axis} (flat : ∀ a ∈ axes, a.IsFlat names)
    (distinct : (axes.flatMap Axis.names).Nodup) (single : axes.countP Axis.isEllipsis ≤ 1) :
    axes.Nodup := by
  induction axes with
  | nil => exact List.nodup_nil
  | cons a axes ih =>
    rw [List.forall_mem_cons] at flat
    rw [List.flatMap_cons, List.nodup_append] at distinct
    rw [List.countP_cons] at single
    refine List.nodup_cons.mpr ⟨fun again => ?_, ih flat.2 distinct.2.1 (by omega)⟩
    cases a with
    | named n =>
      have twice : n ∈ axes.flatMap Axis.names := List.mem_flatMap.mpr ⟨_, again, by simp [Axis.names]⟩
      exact distinct.2.2 n (by simp [Axis.names]) n twice rfl
    | product ns => exact flat.1
    | ellipsis =>
      have more : 0 < axes.countP Axis.isEllipsis := List.countP_pos_iff.mpr ⟨_, again, rfl⟩
      simp only [Axis.isEllipsis, if_true] at single
      omega

theorem mem_expand {L : String → String} {names : List String} {axes : List Axis} {spares : Nat}
    {d : Dim} (flat : ∀ a ∈ axes, a.IsFlat names) :
    d ∈ expand spares (axes.map (Axis.subscript L)) ↔
      (∃ n, .named n ∈ axes ∧ d = dimOf L n) ∨ ∃ k < spares, .ellipsis ∈ axes ∧ d = .spare k := by
  rw [expand, List.flatMap_map, List.mem_flatMap]
  constructor
  · rintro ⟨a, mem, own⟩
    cases a with
    | named n => exact .inl ⟨n, mem, List.mem_singleton.mp own⟩
    | product ns => exact (flat _ mem).elim
    | ellipsis =>
      obtain ⟨k, inside, rfl⟩ := List.mem_map.mp own
      rw [List.mem_reverse, List.mem_range] at inside
      exact .inr ⟨k, inside, mem, rfl⟩
  · rintro (⟨n, mem, rfl⟩ | ⟨k, bound, mem, rfl⟩)
    · exact ⟨_, mem, List.mem_singleton.mpr rfl⟩
    · exact ⟨_, mem, List.mem_map_of_mem (by simpa using bound)⟩

theorem nodup_expand {L : String → String} {names : List String} {axes : List Axis} (spares : Nat)
    (inj : ∀ n ∈ names, ∀ m ∈ names, L n = L m → n = m) (flat : ∀ a ∈ axes, a.IsFlat names)
    (distinct : axes.Nodup) : (expand spares (axes.map (Axis.subscript L))).Nodup := by
  induction axes with
  | nil => exact List.nodup_nil
  | cons a axes ih =>
    rw [List.nodup_cons] at distinct
    rw [List.forall_mem_cons] at flat
    rw [List.map_cons, expand, List.flatMap_cons, List.nodup_append]
    refine ⟨?_, ih flat.2 distinct.2, ?_⟩
    · cases a with
      | named n => exact List.nodup_singleton _
      | product ns => exact flat.1.elim
      | ellipsis =>
        refine List.Nodup.map (fun k l same => Dim.spare.inj same) ?_
        exact List.nodup_reverse.mpr List.nodup_range
    · intro d own e later same
      subst same
      have tail := (mem_expand flat.2).mp later
      cases a with
      | named n =>
        obtain rfl := List.mem_singleton.mp own
        rcases tail with ⟨m, mem, eq⟩ | ⟨k, _, _, eq⟩
        · exact distinct.1 (inj n flat.1 m (flat.2 _ mem) (Dim.letter.inj eq) ▸ mem)
        · cases eq
      | product ns => exact flat.1
      | ellipsis =>
        obtain ⟨k, _, rfl⟩ := List.mem_map.mp own
        rcases tail with ⟨m, _, eq⟩ | ⟨_, _, mem, _⟩
        · cases eq
        · exact distinct.1 mem

end Contraction

namespace Spec

open Contraction Shape

section Aligned

variable {σ : String → Nat} {s : Spec} {ts : List Tensor}

theorem exists_parts {y : Variable × Tensor} (accepts : Accepts σ (s.paired ts))
    (centred : ∀ v ∈ s.inputs, v.Centred) (mem : y ∈ s.inputs.zip ts) :
    ∃ front dots back, Parts σ y.1 y.2.shape front dots back :=
  accepts.exists_parts (mem_paired mem) (centred y.1 (List.of_mem_zip mem).1)

theorem sparesOf?_termOf {y : Variable × Tensor} (accepts : Accepts σ (s.paired ts))
    (centred : ∀ v ∈ s.inputs, v.Centred) (mem : y ∈ s.inputs.zip ts) :
    sparesOf? (s.termOf σ y).1 (s.termOf σ y).2.rank = some (spareDims y.1 y.2.shape).length := by
  obtain ⟨front, dots, back, parts⟩ := exists_parts accepts centred mem
  exact parts.sparesOf?

theorem spareRank_termOf {y : Variable × Tensor} (accepts : Accepts σ (s.paired ts))
    (centred : ∀ v ∈ s.inputs, v.Centred) (mem : y ∈ s.inputs.zip ts) :
    spareRank (s.termOf σ y) = (spareDims y.1 y.2.shape).length := by
  rw [spareRank, sparesOf?_termOf accepts centred mem, Option.getD_some]

theorem mem_entries_termOf {y : Variable × Tensor} {d : Dim} {n : Nat} (accepts : Accepts σ (s.paired ts))
    (centred : ∀ v ∈ s.inputs, v.Centred) (mem : y ∈ s.inputs.zip ts) :
    (d, n) ∈ (operandAt (s.termOf σ y)).dims.zip (operandAt (s.termOf σ y)).tensor.shape ↔
      (∃ a ∈ y.1.axisNames, d = dimOf s.letterOf a ∧ n = σ a) ∨
        ∃ k, d = .spare k ∧ (spareDims y.1 y.2.shape).reverse[k]? = some n := by
  obtain ⟨front, dots, back, parts⟩ := exists_parts accepts centred mem
  rw [operandAt, spareRank_termOf accepts centred mem]
  exact parts.mem_entries

theorem mem_entriesOf {d : Dim} {n : Nat} (accepts : Accepts σ (s.paired ts))
    (centred : ∀ v ∈ s.inputs, v.Centred) (count : ts.length = s.inputs.length) :
    (d, n) ∈ entriesOf ((s.inputs.zip ts).map (s.termOf σ)) ↔
      (∃ a ∈ inputNames s.inputs, d = dimOf s.letterOf a ∧ n = σ a) ∨
        ∃ y ∈ s.inputs.zip ts, ∃ k, d = .spare k ∧ (spareDims y.1 y.2.shape).reverse[k]? = some n := by
  have own {y : Variable × Tensor} (mem : y ∈ s.inputs.zip ts) :=
    mem_entries_termOf (d := d) (n := n) accepts centred mem
  rw [entriesOf, List.flatMap_map, List.mem_flatMap]
  constructor
  · rintro ⟨y, mem, entry⟩
    rcases (own mem).mp entry with ⟨a, name, size⟩ | spare
    · exact .inl ⟨a, List.mem_flatMap.mpr ⟨y.1, (List.of_mem_zip mem).1, name⟩, size⟩
    · exact .inr ⟨y, mem, spare⟩
  · rintro (⟨a, name, size⟩ | ⟨y, mem, spare⟩)
    · obtain ⟨v, input, name⟩ := List.mem_flatMap.mp name
      rw [← List.map_fst_zip count.ge] at input
      obtain ⟨y, mem, rfl⟩ := List.mem_map.mp input
      exact ⟨y, mem, (own mem).mpr (.inl ⟨a, name, size⟩)⟩
    · exact ⟨y, mem, (own mem).mpr (.inr spare)⟩

theorem WellFormed.isDiagonal_termOf {y : Variable × Tensor} (h : s.WellFormed)
    (accepts : Accepts σ (s.paired ts)) (centred : ∀ v ∈ s.inputs, v.Centred)
    (mem : y ∈ s.inputs.zip ts) : isDiagonal (operandAt (s.termOf σ y)) = true := by
  have known {a : String} (name : a ∈ y.1.axisNames) : a ∈ inputNames s.inputs :=
    List.mem_flatMap.mpr ⟨y.1, (List.of_mem_zip mem).1, name⟩
  rw [isDiagonal_iff]
  intro d n m hn hm
  rw [mem_entries_termOf accepts centred mem] at hn hm
  rcases hn with ⟨a, ha, rfl, rfl⟩ | ⟨k, rfl, size⟩
  · rcases hm with ⟨b, hb, same, rfl⟩ | ⟨_, same, _⟩
    · rw [dimOf_inj h.letterOf_inj (known ha) (known hb) same]
    · cases same
  · rcases hm with ⟨_, _, same, _⟩ | ⟨l, same, size'⟩
    · cases same
    · obtain rfl := Dim.spare.inj same
      exact Option.some.inj (size.symm.trans size')

theorem spareDims_of_plain {v : Variable} {shape : Shape} (plain : .ellipsis ∉ v.axes) :
    spareDims v shape = [] := by
  rw [spareDims, List.findIdx?_eq_none_iff.mpr (Axis.solid_of_notMem plain)]

/-- For variables with their ellipses in the middle, the contraction succeeds on the arrays that pass
the check exactly if the dimensions of the ellipses are aligned. -/
theorem WellFormed.contracts_iff (h : s.WellFormed) (accepts : Accepts σ (s.paired ts))
    (centred : ∀ v ∈ s.inputs, v.Centred) (count : ts.length = s.inputs.length)
    (distinct : (outputNames s.output).Nodup) (single : s.flatOutput.countP Axis.isEllipsis ≤ 1)
    (carried : ∀ v ∈ s.inputs, .ellipsis ∈ v.axes → .ellipsis ∈ s.flatOutput) :
    Contracts (s.compiled.inputs.zip (s.splitBy σ ts)) s.compiled.output ↔ Aligned (s.paired ts) := by
  have nodup : s.flatOutput.Nodup :=
    nodup_of_isFlat h.isFlat_output (s.names_flatOutput ▸ distinct) single
  have rests : restCount s.compiled.output = s.flatOutput.countP Axis.isEllipsis :=
    restCount_subscript h.isFlat_output
  have entries {d : Dim} {n : Nat} := mem_entriesOf (d := d) (n := n) accepts centred count
  rw [zip_splitBy]
  constructor
  · intro contracts x hx y hy k n m hn hm
    rw [paired_eq] at hx hy
    obtain ⟨x, first, rfl⟩ := List.mem_map.mp hx
    obtain ⟨y, second, rfl⟩ := List.mem_map.mp hy
    exact contracts.sizes (.spare k) n m (entries.mpr (.inr ⟨x, first, k, rfl, hn⟩))
      (entries.mpr (.inr ⟨y, second, k, rfl, hm⟩))
  · intro aligned
    have most {k : Nat} : k < mostSpares ((s.inputs.zip ts).map (s.termOf σ)) ↔
        ∃ y ∈ s.inputs.zip ts, k < (spareDims y.1 y.2.shape).length := by
      rw [lt_mostSpares]
      constructor
      · rintro ⟨_, term, bound⟩
        obtain ⟨y, mem, rfl⟩ := List.mem_map.mp term
        exact ⟨y, mem, spareRank_termOf accepts centred mem ▸ bound⟩
      · rintro ⟨y, mem, bound⟩
        exact ⟨_, List.mem_map_of_mem mem, spareRank_termOf accepts centred mem ▸ bound⟩
    refine ⟨?_, ?_, ?_, ?_, ?_, ?_, nodup_expand _ h.letterOf_inj h.isFlat_output nodup, ?_⟩
    · intro none
      have pairs := congrArg List.length none
      rw [List.length_map, List.length_zip, count, Nat.min_self] at pairs
      exact h.nonempty (List.length_eq_zero_iff.mp pairs)
    · intro x term
      obtain ⟨y, mem, rfl⟩ := List.mem_map.mp term
      rw [sparesOf?_termOf accepts centred mem]
      rfl
    · intro x term
      obtain ⟨y, mem, rfl⟩ := List.mem_map.mp term
      exact h.isDiagonal_termOf accepts centred mem
    · intro d n m hn hm
      rcases entries.mp hn with ⟨a, ha, rfl, rfl⟩ | ⟨x, hx, k, rfl, size⟩
      · rcases entries.mp hm with ⟨b, hb, same, rfl⟩ | ⟨_, _, k, same, _⟩
        · exact .inl (congrArg σ (dimOf_inj h.letterOf_inj ha hb same))
        · cases same
      · rcases entries.mp hm with ⟨b, _, same, _⟩ | ⟨y, hy, l, same, size'⟩
        · cases same
        · obtain rfl := Dim.spare.inj same
          exact aligned _ (mem_paired hx) _ (mem_paired hy) k n m size size'
    · rwa [rests]
    · intro some
      obtain ⟨y, mem, bound⟩ := most.mp some
      have dots : .ellipsis ∈ y.1.axes := by
        by_contra plain
        rw [spareDims_of_plain plain] at bound
        cases bound
      rw [rests, Ne, List.countP_eq_zero]
      exact fun none => none _ (carried y.1 (List.of_mem_zip mem).1 dots) rfl
    · intro d mem
      rcases (mem_expand h.isFlat_output).mp mem with ⟨a, name, rfl⟩ | ⟨k, bound, _, rfl⟩
      · exact ⟨σ a, entries.mpr (.inl ⟨a, h.isFlat_output _ name, rfl, rfl⟩)⟩
      · obtain ⟨y, mem, bound⟩ := most.mp bound
        rw [← List.length_reverse] at bound
        exact ⟨_, entries.mpr (.inr ⟨y, mem, k, rfl, List.getElem?_eq_getElem bound⟩)⟩

structure Orderly (s : Spec) : Prop where
  single : ∀ v ∈ s.output, v.axes.countP Axis.isEllipsis ≤ 1
  distinct : (outputNames s.output).Nodup
  carried : ∀ v ∈ s.inputs, .ellipsis ∈ v.axes → ∃ w ∈ s.output, .ellipsis ∈ w.axes

theorem Orderly.contracts_iff (h : s.Orderly) (formed : s.WellFormed) (accepts : Accepts σ (s.paired ts))
    (centred : ∀ v ∈ s.inputs, v.Centred) (count : ts.length = s.inputs.length) :
    Contracts (s.compiled.inputs.zip (s.splitBy σ ts)) s.compiled.output ↔ Aligned (s.paired ts) := by
  refine formed.contracts_iff accepts centred count h.distinct ?_ ?_
  · rw [flatOutput]
    cases out : s.output with
    | none => simp
    | some w => exact (Axis.countP_flattened w.axes).trans_le (h.single w out)
  · intro v input dots
    obtain ⟨w, out, mem⟩ := h.carried v input dots
    rw [flatOutput, Option.mem_def.mp out]
    exact List.mem_flatMap.mpr ⟨_, mem, List.mem_singleton.mpr rfl⟩

end Aligned

end Spec

end AxisLang
