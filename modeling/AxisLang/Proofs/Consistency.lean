import AxisLang.Proofs.Alignment

/-! Whether evaluation can accept inconsistent arrays.
A product is compared with its factors only if all of them have stood alone before it. A later factor
leaves just the number of elements of the array to be compared, which fixes the product only if it is
the single axis. Otherwise a dimension of size zero beside the product hides any size of it. -/
namespace AxisLang

namespace Shape

variable {σ : String → Nat} {xs : List (Variable × Shape)}

/-- Each product is the only axis of its variable, or comes after its factors. -/
def Guarded (vs : List Variable) : Prop :=
  ∀ front v back, vs = front ++ v :: back → ∀ left ns right, v.axes = left ++ .product ns :: right →
    (left = [] ∧ right = []) ∨ ∀ n ∈ ns, (∃ w ∈ front, .named n ∈ w.axes) ∨ .named n ∈ left

def Solid (xs : List (Variable × Shape)) : Prop :=
  ∀ x ∈ xs, ∀ a ∈ x.1.axes, a.isEllipsis = false

theorem scanOf_append (xs ys : List (Variable × Shape)) : scanOf (xs ++ ys) = scanOf xs ++ scanOf ys :=
  List.flatMap_append

theorem Accepts.rank_eq {x : Variable × Shape} (h : Accepts σ xs) (solid : Solid xs) (mem : x ∈ xs) :
    x.2.length = x.1.axes.length :=
  (h.admits x mem).rank (List.findIdx?_eq_none_iff.mpr (solid x mem))

theorem dimNames_eq {x : Variable × Shape} (solid : Solid xs) (mem : x ∈ xs) :
    dimNames x = x.1.axisNames := by
  rw [dimNames, material_plain _ (solid x mem)]
  rfl

theorem Accepts.size_eq {front back : List (Variable × Shape)} {v : Variable} {left right : List Axis}
    {a : Axis} {low high : Shape} {k : Nat} (h : Accepts σ (front ++ (v, low ++ k :: high) :: back))
    (solid : Solid (front ++ (v, low ++ k :: high) :: back)) (axes : v.axes = left ++ a :: right)
    (same : left.length = low.length)
    (guard : ∀ ns, a = .product ns → (left = [] ∧ right = []) ∨
      ∀ n ∈ ns, (∃ y ∈ front, .named n ∈ y.1.axes) ∨ .named n ∈ left) : k = a.size σ := by
  have mem : (v, low ++ k :: high) ∈ front ++ (v, low ++ k :: high) :: back := by simp
  have scan : scanOf (front ++ (v, low ++ k :: high) :: back) =
      (scanOf front ++ left.zip low) ++ (a, k) :: (right.zip high ++ scanOf back) := by
    rw [scanOf_append, scanOf, scanOf, List.flatMap_cons, material_plain _ (solid _ mem), axes,
      List.zip_append same, List.zip_cons_cons, List.append_assoc, List.append_assoc]
    rfl
  cases a with
  | named n => exact h.agrees.named n k (by simp [scan])
  | product ns =>
    rcases guard ns rfl with ⟨rfl, rfl⟩ | settled
    · have volumes := h.volumes _ mem
      have rank := h.rank_eq solid mem
      obtain rfl : low = [] := List.length_eq_zero_iff.mp same.symm
      obtain rfl : high = [] := List.length_eq_zero_iff.mp (by simpa [axes] using rank)
      rw [dimNames_eq solid mem, Variable.axisNames, axes] at volumes
      rw [Axis.size, ← volume_eq_prod]
      simpa [Axis.names] using volumes.symm
    · refine h.agrees.product _ ns k _ scan fun n factor => mem_plainNames.mpr ?_
      rcases settled n factor with ⟨y, hy, name⟩ | name
      · have other : y ∈ front ++ (v, low ++ k :: high) :: back := List.mem_append_left _ hy
        obtain ⟨m, dim⟩ := exists_zip_of_mem (h.rank_eq solid other).ge name
        refine ⟨m, List.mem_append_left _ (List.mem_flatMap.mpr ⟨y, hy, ?_⟩)⟩
        rwa [material_plain _ (solid y other)]
      · obtain ⟨m, dim⟩ := exists_zip_of_mem same.le name
        exact ⟨m, List.mem_append_right _ dim⟩
  | ellipsis => exact absurd (solid _ mem .ellipsis (by simp [axes])) (by decide)

theorem Accepts.shape_eq (h : Accepts σ xs) (solid : Solid xs) (guarded : Guarded (xs.map Prod.fst)) :
    ∀ x ∈ xs, x.2 = x.1.shape σ := by
  rintro ⟨v, shape⟩ mem
  have rank := h.rank_eq solid mem
  obtain ⟨front, back, rfl⟩ := List.append_of_mem mem
  rw [Variable.shape]
  refine List.ext_getElem (by rw [List.length_map, rank]) fun i hi hj => ?_
  rw [List.length_map] at hj
  rw [List.getElem_map]
  have axes : v.axes = v.axes.take i ++ v.axes[i] :: v.axes.drop (i + 1) := by simp
  have dims : shape = shape.take i ++ shape[i] :: shape.drop (i + 1) := by simp
  rw [dims] at h solid
  have same : (v.axes.take i).length = (shape.take i).length := by
    rw [List.length_take, List.length_take, rank]
  refine h.size_eq solid axes same fun ns product => ?_
  rw [product] at axes
  rcases guarded (front.map Prod.fst) v (back.map Prod.fst) (by simp) _ ns _ axes with alone | settled
  · exact .inl alone
  · refine .inr fun n factor => (settled n factor).imp_left ?_
    rintro ⟨w, hw, name⟩
    obtain ⟨y, hy, rfl⟩ := List.mem_map.mp hw
    exact ⟨y, hy, name⟩

def vanishing (_ : String) : Nat := 0

theorem size_vanishing {a : Axis} (solid : a.isEllipsis = false) (spelled : a.IsSpelled) :
    a.size vanishing = 0 := by
  have names := spelled.names solid
  cases a with
  | named n => rfl
  | product ns =>
    obtain ⟨n, rest, rfl⟩ := List.exists_cons_of_ne_nil names
    simp [Axis.size, vanishing]
  | ellipsis => cases solid

/-- The arrays of size zero, with one dimension of size one for a product. -/
def spoiled (front back : List Variable) (v : Variable) (left right : List Axis) :
    List (Variable × Shape) :=
  front.map (fun w => (w, w.shape vanishing)) ++
    (v, left.map (Axis.size vanishing) ++ 1 :: right.map (Axis.size vanishing)) ::
      back.map fun w => (w, w.shape vanishing)

section Spoiled

variable {front back : List Variable} {v : Variable} {left right : List Axis} {ns : List String}

theorem map_fst_spoiled : (spoiled front back v left right).map Prod.fst = front ++ v :: back := by
  simp [spoiled, Function.comp_def]

theorem solid_spoiled (solid : ∀ w ∈ front ++ v :: back, ∀ a ∈ w.axes, a.isEllipsis = false) :
    Solid (spoiled front back v left right) := by
  intro x mem
  have first : x.1 ∈ front ++ v :: back := map_fst_spoiled ▸ List.mem_map_of_mem mem
  exact solid x.1 first

def emptied (axes : List Axis) : List (Axis × Nat) :=
  axes.map fun a => (a, a.size vanishing)

theorem scanOf_emptied {vs : List Variable} (solid : ∀ w ∈ vs, ∀ a ∈ w.axes, a.isEllipsis = false) :
    scanOf (vs.map fun w => (w, w.shape vanishing)) = emptied (vs.flatMap Variable.axes) := by
  rw [scanOf, List.flatMap_map, emptied, List.map_flatMap]
  refine List.flatMap_congr fun w mem => ?_
  rw [material_plain _ (solid w mem), Variable.shape, zip_map_size]

theorem scanOf_spoiled (solid : ∀ w ∈ front ++ v :: back, ∀ a ∈ w.axes, a.isEllipsis = false)
    (axes : v.axes = left ++ .product ns :: right) :
    scanOf (spoiled front back v left right) = emptied (front.flatMap Variable.axes ++ left) ++
      (.product ns, 1) :: emptied (right ++ back.flatMap Variable.axes) := by
  have own : (v, left.map (Axis.size vanishing) ++ 1 :: right.map (Axis.size vanishing)) ∈
      spoiled front back v left right := by simp [spoiled]
  rw [spoiled, ← List.singleton_append, scanOf_append, scanOf_append,
    scanOf_emptied fun w mem => solid w (List.mem_append_left _ mem),
    scanOf_emptied fun w mem => solid w (List.mem_append_right _ (List.mem_cons_of_mem _ mem))]
  rw [scanOf, List.flatMap_singleton, material_plain _ (solid_spoiled solid _ own), axes,
    List.zip_append (List.length_map ..).symm, List.zip_cons_cons, zip_map_size, zip_map_size]
  simp [emptied]

theorem mem_emptied {axes : List Axis} {a : Axis} {k : Nat} :
    (a, k) ∈ emptied axes ↔ a ∈ axes ∧ k = a.size vanishing := by
  rw [emptied, List.mem_map]
  constructor
  · rintro ⟨b, mem, same⟩
    obtain ⟨rfl, rfl⟩ := Prod.mk.inj same
    exact ⟨mem, rfl⟩
  · rintro ⟨mem, rfl⟩
    exact ⟨a, mem, rfl⟩

theorem mem_emptied_product {before after : List Axis} {a : Axis} {k : Nat} :
    (a, k) ∈ emptied before ++ (.product ns, 1) :: emptied after ↔
      (a ∈ before ∨ a ∈ after) ∧ k = a.size vanishing ∨ a = .product ns ∧ k = 1 := by
  rw [List.mem_append, List.mem_cons, mem_emptied, mem_emptied, Prod.mk.injEq]
  tauto

theorem exists_axes_of_mem (axes : v.axes = left ++ .product ns :: right) {a : Axis}
    (mem : a ∈ front.flatMap Variable.axes ++ left ∨ a ∈ right ++ back.flatMap Variable.axes) :
    ∃ w ∈ front ++ v :: back, a ∈ w.axes := by
  simp only [List.mem_append, List.mem_flatMap] at mem
  rcases mem with (⟨w, hw, mem⟩ | mem) | mem | ⟨w, hw, mem⟩
  · exact ⟨w, List.mem_append_left _ hw, mem⟩
  · exact ⟨v, by simp, by simp [axes, mem]⟩
  · exact ⟨v, by simp, by simp [axes, mem]⟩
  · exact ⟨w, by simp [hw], mem⟩

theorem named_mem_scan (solid : ∀ w ∈ front ++ v :: back, ∀ a ∈ w.axes, a.isEllipsis = false)
    (axes : v.axes = left ++ .product ns :: right) {w : Variable} {n : String}
    (mem : w ∈ front ++ v :: back) (name : .named n ∈ w.axes) :
    n ∈ plainNames (scanOf (spoiled front back v left right)) := by
  rw [mem_plainNames, scanOf_spoiled solid axes]
  refine ⟨0, mem_emptied_product.mpr (.inl ⟨?_, rfl⟩)⟩
  rcases List.mem_append.mp mem with mem | mem
  · exact .inl (List.mem_append_left _ (List.mem_flatMap.mpr ⟨w, mem, name⟩))
  · rcases List.mem_cons.mp mem with rfl | mem
    · rw [axes, List.mem_append, List.mem_cons] at name
      rcases name with name | name | name
      · exact .inl (List.mem_append_right _ name)
      · cases name
      · exact .inr (List.mem_append_left _ name)
    · exact .inr (List.mem_append_right _ (List.mem_flatMap.mpr ⟨w, mem, name⟩))

theorem agrees_spoiled (solid : ∀ w ∈ front ++ v :: back, ∀ a ∈ w.axes, a.isEllipsis = false)
    (spelled : ∀ w ∈ front ++ v :: back, ∀ a ∈ w.axes, a.IsSpelled)
    (axes : v.axes = left ++ .product ns :: right) {n : String} (factor : n ∈ ns)
    (early : ∀ w ∈ front, .named n ∉ w.axes) (first : .named n ∉ left) :
    Agrees vanishing (scanOf (spoiled front back v left right)) := by
  rw [scanOf_spoiled solid axes]
  have zero {a : Axis} (mem : a ∈ front.flatMap Variable.axes ++ left ∨
      a ∈ right ++ back.flatMap Variable.axes) : a.isEllipsis = false ∧ a.size vanishing = 0 := by
    obtain ⟨w, hw, inside⟩ := exists_axes_of_mem axes mem
    exact ⟨solid w hw a inside, size_vanishing (solid w hw a inside) (spelled w hw a inside)⟩
  have absent {P : List Axis} (all : ∀ a ∈ P, a.size vanishing = 0) : (.product ns, 1) ∉ emptied P := by
    intro mem
    obtain ⟨inside, one⟩ := mem_emptied.mp mem
    rw [all _ inside] at one
    cases one
  refine ⟨?_, ?_, ?_⟩
  · rintro ⟨a, k⟩ mem
    obtain ⟨mem, _⟩ | ⟨rfl, _⟩ := mem_emptied_product.mp mem
    · exact (zero mem).1
    · rfl
  · intro m k mem
    obtain ⟨_, size⟩ | ⟨same, _⟩ := mem_emptied_product.mp mem
    · exact size
    · cases same
  · intro before ms k after eq factors
    have mem : (.product ms, k) ∈ before ++ (.product ms, k) :: after := by simp
    obtain ⟨_, size⟩ | ⟨same, rfl⟩ := mem_emptied_product.mp (eq ▸ mem)
    · exact size
    · -- the product in question: nothing in front of it is the missing factor
      obtain rfl := Axis.product.inj same
      obtain ⟨rfl, _, _⟩ := (List.append_cons_inj_of_notMem (absent fun a mem => (zero (.inl mem)).2)
        (absent fun a mem => (zero (.inr mem)).2)).mp eq
      obtain ⟨m, entry⟩ := mem_plainNames.mp (factors n factor)
      rcases List.mem_append.mp (mem_emptied.mp entry).1 with mem | mem
      · obtain ⟨w, hw, name⟩ := List.mem_flatMap.mp mem
        exact absurd name (early w hw)
      · exact absurd mem first

theorem volume_eq_zero {shape : Shape} (mem : 0 ∈ shape) : volume shape = 0 := by
  induction shape with
  | nil => cases mem
  | cons n shape ih =>
    rw [volume_cons]
    rcases List.mem_cons.mp mem with rfl | mem
    · exact Nat.zero_mul _
    · rw [ih mem, Nat.mul_zero]

theorem volume_spoiled (solid : ∀ a ∈ v.axes, a.isEllipsis = false) (spelled : ∀ a ∈ v.axes, a.IsSpelled)
    (axes : v.axes = left ++ .product ns :: right) (beside : ¬ (left = [] ∧ right = [])) :
    volume (v.axisNames.map vanishing) =
      volume (left.map (Axis.size vanishing) ++ 1 :: right.map (Axis.size vanishing)) := by
  have zero {a : Axis} (mem : a ∈ v.axes) : a.size vanishing = 0 :=
    size_vanishing (solid a mem) (spelled a mem)
  have product : 0 ∈ v.axes.map (Axis.size vanishing) :=
    List.mem_map.mpr ⟨.product ns, by simp [axes], zero (by simp [axes])⟩
  obtain ⟨a, mem⟩ : ∃ a, a ∈ left ++ right := by
    refine List.exists_mem_of_ne_nil _ fun none => beside ?_
    exact List.append_eq_nil_iff.mp none
  have other : 0 ∈ left.map (Axis.size vanishing) ++ 1 :: right.map (Axis.size vanishing) := by
    have size := zero (a := a) (by rw [axes]; rcases List.mem_append.mp mem with mem | mem <;> simp [mem])
    rcases List.mem_append.mp mem with mem | mem
    · exact List.mem_append_left _ (List.mem_map.mpr ⟨a, mem, size⟩)
    · exact List.mem_append_right _ (List.mem_cons_of_mem _ (List.mem_map.mpr ⟨a, mem, size⟩))
  rw [Variable.axisNames, ← volume_map_size, volume_eq_zero product, volume_eq_zero other]

theorem accepts_spoiled (solid : ∀ w ∈ front ++ v :: back, ∀ a ∈ w.axes, a.isEllipsis = false)
    (spelled : ∀ w ∈ front ++ v :: back, ∀ a ∈ w.axes, a.IsSpelled)
    (known : ∀ w ∈ front ++ v :: back, ∀ n ∈ w.axisNames, ∃ u ∈ front ++ v :: back, .named n ∈ u.axes)
    (axes : v.axes = left ++ .product ns :: right) (beside : ¬ (left = [] ∧ right = []))
    {n : String} (factor : n ∈ ns) (early : ∀ w ∈ front, .named n ∉ w.axes) (first : .named n ∉ left) :
    Accepts vanishing (spoiled front back v left right) := by
  have plain : Solid (spoiled front back v left right) := solid_spoiled solid
  have input {x : Variable × Shape} (mem : x ∈ spoiled front back v left right) :
      x.1 ∈ front ++ v :: back := map_fst_spoiled ▸ List.mem_map_of_mem mem
  have each : ∀ x ∈ spoiled front back v left right, x.2.length = x.1.axes.length ∧
      volume (x.1.axisNames.map vanishing) = volume x.2 := by
    intro x mem
    have full (w : Variable) : (w.shape vanishing).length = w.axes.length ∧
        volume (w.axisNames.map vanishing) = volume (w.shape vanishing) :=
      ⟨List.length_map .., (volume_map_size w.axes).symm⟩
    rw [spoiled, List.mem_append, List.mem_cons, List.mem_map, List.mem_map] at mem
    rcases mem with ⟨w, _, rfl⟩ | rfl | ⟨w, _, rfl⟩
    · exact full w
    · refine ⟨by simp [axes], volume_spoiled (solid v ?_) (spelled v ?_) axes beside⟩ <;> simp
    · exact full w
  refine ⟨fun x mem => ⟨?_, fun _ => (each x mem).1, ?_⟩,
    agrees_spoiled solid spelled axes factor early first, fun x mem n name => ?_, fun x mem => ?_⟩
  · rw [List.countP_eq_zero.mpr fun a axis => by simp [plain x mem a axis]]
    exact Nat.zero_le 1
  · rw [material_plain _ (plain x mem), (each x mem).1]
  · rw [dimNames_eq plain mem] at name
    obtain ⟨u, hu, own⟩ := known x.1 (input mem) n name
    exact named_mem_scan solid axes hu own
  · rw [dimNames_eq plain mem]
    exact (each x mem).2

theorem spoiled_inconsistent (known : ∀ n ∈ v.axisNames, ∃ u ∈ front ++ v :: back, .named n ∈ u.axes)
    (axes : v.axes = left ++ .product ns :: right) (some : ns ≠ []) :
    ¬ ∃ σ, ∀ x ∈ spoiled front back v left right, x.2 = x.1.shape σ := by
  rintro ⟨σ, consistent⟩
  obtain ⟨n, rest, rfl⟩ := List.exists_cons_of_ne_nil some
  have own := consistent (v, left.map (Axis.size vanishing) ++ 1 :: right.map (Axis.size vanishing))
    (by simp [spoiled])
  rw [Variable.shape, axes, List.map_append, List.map_cons] at own
  obtain ⟨lefts, rights⟩ := List.append_inj own (by simp)
  obtain ⟨one, rights⟩ := List.cons.inj rights
  have zero : σ n = 0 := by
    obtain ⟨u, hu, name⟩ := known n (List.mem_flatMap.mpr ⟨.product (n :: rest), by simp [axes],
      by simp [Axis.names]⟩)
    have full (mem : u ∈ front ∨ u ∈ back) : σ n = 0 := by
      have whole := consistent (u, u.shape vanishing) (by rcases mem with mem | mem <;> simp [spoiled, mem])
      exact (List.map_inj_left.mp whole _ name).symm
    rcases List.mem_append.mp hu with mem | mem
    · exact full (.inl mem)
    · rcases List.mem_cons.mp mem with rfl | mem
      · rw [axes, List.mem_append, List.mem_cons] at name
        rcases name with name | name | name
        · exact (List.map_inj_left.mp lefts _ name).symm
        · cases name
        · exact (List.map_inj_left.mp rights _ name).symm
      · exact full (.inr mem)
  simp [Axis.size, zero] at one

end Spoiled

end Shape

namespace Spec

open Contraction Shape

variable {σ : String → Nat} {s : Spec} {ts : List Tensor} {t : Tensor}

/-- One size for each name tells the shapes of all arrays. -/
def Consistent (s : Spec) (ts : List Tensor) : Prop :=
  ∃ σ, List.Forall₂ (fun v t => t.shape = Variable.shape σ v) s.inputs ts

theorem consistent_iff (count : ts.length = s.inputs.length) :
    s.Consistent ts ↔ ∃ σ, ∀ x ∈ s.paired ts, x.2 = x.1.shape σ := by
  simp only [Consistent, List.forall₂_iff_zip, count, true_and]
  refine exists_congr fun σ => ⟨fun h x mem => ?_, fun h v t mem => h _ (mem_paired mem)⟩
  rw [paired_eq] at mem
  obtain ⟨y, hy, rfl⟩ := List.mem_map.mp mem
  exact h hy

theorem Plain.solid (h : s.Plain) (ts : List Tensor) : Solid (s.paired ts) :=
  fun x mem => h.inputs x.1 (List.of_mem_zip mem).1

theorem Plain.contracts (h : s.Plain) (formed : s.WellFormed) (distinct : (outputNames s.output).Nodup)
    (accepts : Accepts σ (s.paired ts)) (count : ts.length = s.inputs.length) :
    Contracts (s.compiled.inputs.zip (s.splitBy σ ts)) s.compiled.output := by
  have dots {v : Variable} (input : v ∈ s.inputs) : .ellipsis ∉ v.axes := fun mem =>
    absurd (h.inputs v input _ mem) (by decide)
  have orderly : s.Orderly := by
    refine ⟨fun v out => ?_, distinct, fun v input mem => absurd mem (dots input)⟩
    rw [List.countP_eq_zero.mpr fun a mem => by simp [h.output v out a mem]]
    exact Nat.zero_le 1
  refine (orderly.contracts_iff formed accepts (fun v input e place => ?_) count).mpr ?_
  · rw [List.findIdx?_eq_none_iff.mpr (h.inputs v input)] at place
    cases place
  · intro x hx y _ k n m hn _
    rw [spareDims_of_plain (dots (List.of_mem_zip hx).1)] at hn
    cases hn

theorem Plain.distinct_of_contracts (h : s.Plain) {xs : List (List Subscript × Tensor)}
    (contracts : Contracts xs s.compiled.output) : (outputNames s.output).Nodup := by
  have nodup := contracts.distinct
  rw [compiled, flatOutput] at nodup
  cases out : s.output with
  | none => exact List.nodup_nil
  | some v =>
    rw [out] at nodup
    change (expand _ (v.flattened.map (Axis.subscript s.letterOf))).Nodup at nodup
    rw [Variable.flattened, subscripts_of_solid (h.output v out), expand_subscriptsOf] at nodup
    exact nodup.of_map

theorem WellFormed.of_returned (h : s.WellFormed) (returned : s.evaluate ts = .ok t) :
    ∃ σ, Accepts σ (s.paired ts) ∧
      Contracts (s.compiled.inputs.zip (s.splitBy σ ts)) s.compiled.output := by
  obtain ⟨us, r, shape, checked, contracted, _⟩ := h.evaluate_eq_ok.mp returned
  obtain ⟨σ, accepts, rfl⟩ := shapeCheck_eq_ok.mp checked
  exact ⟨σ, accepts, (contract?_eq_some.mp contracted).2.1⟩

theorem Plain.known_of_accepts (h : s.Plain) (accepts : Accepts σ (s.paired ts))
    (count : ts.length = s.inputs.length) :
    ∀ v ∈ s.inputs, ∀ n ∈ v.axisNames, ∃ w ∈ s.inputs, .named n ∈ w.axes := by
  intro v input n name
  rw [← map_fst_paired count] at input
  obtain ⟨x, mem, rfl⟩ := List.mem_map.mp input
  rw [← dimNames_eq (h.solid ts) mem] at name
  obtain ⟨k, entry⟩ := mem_plainNames.mp (accepts.known x mem n name)
  obtain ⟨y, hy, dim⟩ := List.mem_flatMap.mp entry
  rw [material_plain _ (h.solid ts y hy)] at dim
  exact ⟨y.1, (List.of_mem_zip hy).1, (List.of_mem_zip dim).1⟩

theorem exists_inconsistent (formed : s.WellFormed) (plain : s.Plain)
    (spelled : ∀ v ∈ s.inputs, ∀ a ∈ v.axes, a.IsSpelled) (count : ts.length = s.inputs.length)
    (returned : s.evaluate ts = .ok t) (unguarded : ¬ Guarded s.inputs) :
    ∃ us u, (∀ u ∈ us, u.data.size = volume u.shape) ∧ us.length = s.inputs.length ∧
      s.evaluate us = .ok u ∧ ¬ s.Consistent us := by
  obtain ⟨τ, accepts, contracts⟩ := formed.of_returned returned
  have known := plain.known_of_accepts accepts count
  have distinct := plain.distinct_of_contracts contracts
  simp only [Guarded, not_forall, not_or, not_exists, not_and] at unguarded
  obtain ⟨front, v, back, split, left, ns, right, axes, beside, n, factor, early, first⟩ := unguarded
  have inputs : (spoiled front back v left right).map Prod.fst = s.inputs := map_fst_spoiled.trans split.symm
  have length := length_samples inputs
  -- where all names have size zero, the product that is not looked at may have size one
  have tried : Accepts vanishing (s.paired (samples (spoiled front back v left right))) := by
    rw [paired_samples inputs]
    rw [split] at spelled known
    exact accepts_spoiled (split ▸ plain.inputs) spelled known axes (by tauto) factor early first
  obtain ⟨u, result⟩ := formed.exists_evaluate tried length (plain.contracts formed distinct tried length)
  refine ⟨_, u, size_samples, length, result, ?_⟩
  rw [consistent_iff length, paired_samples inputs]
  rw [split] at known
  exact spoiled_inconsistent (known v (by simp)) axes (List.ne_nil_of_mem factor)

/-- When evaluation accepts consistent arrays only. All arrays that it accepts agree with one size for
each name in their plain axes and in the numbers of their elements. They agree in all their products,
for every call that returns, exactly if each product is the only axis of its variable or comes after
its factors, or if no call returns at all. -/
theorem einsum_consistent_iff {text : String} (parsed : parse text = .ok s)
    (dotless : ¬ "...".toList <:+: text.toList) :
    (∀ ts t, ts.length = s.inputs.length → einsum text ts = .ok t →
      ∃ σ, List.Forall₂ (fun v t => t.shape.length = v.axes.length ∧
        (∀ n k, (.named n, k) ∈ v.axes.zip t.shape → k = σ n) ∧
        volume t.shape = volume (v.shape σ)) s.inputs ts) ∧
    ((∀ ts t, (∀ u ∈ ts, u.data.size = volume u.shape) → ts.length = s.inputs.length →
        einsum text ts = .ok t → s.Consistent ts) ↔
      Guarded s.inputs ∨ ∀ ts t, ts.length = s.inputs.length → einsum text ts ≠ .ok t) := by
  have formed := wellFormed_of_parse parsed
  have plain := plain_of_parse parsed dotless
  simp only [einsum_eq parsed]
  refine ⟨fun ts t count returned => ?_, fun safe => ?_, ?_⟩
  · obtain ⟨σ, accepts, _⟩ := formed.of_returned returned
    have solid := plain.solid ts
    refine ⟨σ, List.forall₂_iff_zip.mpr ⟨count.symm, fun {v t} mem => ?_⟩⟩
    have own : (v, t.shape) ∈ s.paired ts := mem_paired mem
    refine ⟨accepts.rank_eq solid own, fun n k dim => ?_, ?_⟩
    · refine accepts.agrees.named n k (Accepts.mem_scan own ?_)
      rwa [material_plain _ (solid _ own)]
    · have volumes := accepts.volumes _ own
      rw [dimNames_eq solid own, Variable.axisNames, ← volume_map_size] at volumes
      exact volumes.symm
  · by_cases guarded : Guarded s.inputs
    · exact .inl guarded
    · refine .inr fun ts t count returned => ?_
      obtain ⟨us, u, sized, length, result, inconsistent⟩ :=
        exists_inconsistent formed plain (isSpelled_of_parse parsed) count returned guarded
      exact inconsistent (safe us u sized length result)
  · rintro (guarded | none) ts t _ count returned
    · obtain ⟨σ, accepts, _⟩ := formed.of_returned returned
      rw [← map_fst_paired count] at guarded
      exact (consistent_iff count).mpr ⟨σ, accepts.shape_eq (plain.solid ts) guarded⟩
    · exact absurd returned (none ts t count)

theorem einsum_consistent_after_factors :
    ∃ s t, parse "u[i], v[j], M[i*j, k] -> [k]" = .ok s ∧
      einsum "u[i], v[j], M[i*j, k] -> [k]" [.counting [2] 1, .counting [3] 1, .counting [6, 2] 1] = .ok t ∧
      ∀ ts t, (∀ u ∈ ts, u.data.size = volume u.shape) → ts.length = s.inputs.length →
        einsum "u[i], v[j], M[i*j, k] -> [k]" ts = .ok t → s.Consistent ts := by
  let s : Spec := ⟨[⟨some "u", [.named "i"]⟩, ⟨some "v", [.named "j"]⟩,
      ⟨some "M", [.product ["i", "j"], .named "k"]⟩],
    some ⟨none, [.named "k"]⟩, [("i", "A"), ("j", "B"), ("k", "C")]⟩
  have runs : (parse "u[i], v[j], M[i*j, k] -> [k]").toOption = some s ∧
      ¬ "...".toList <:+: "u[i], v[j], M[i*j, k] -> [k]".toList ∧
      (einsum "u[i], v[j], M[i*j, k] -> [k]"
        [.counting [2] 1, .counting [3] 1, .counting [6, 2] 1]).toOption = some ⟨[2], #[138, 156]⟩ := by
    decide +kernel
  have guarded : Guarded s.inputs := by
    intro front v back split left ns right axes
    have product : .product ns ∈ v.axes := by simp [axes]
    match front, split with
    | [], split => simp [s] at split; simp [← split.1] at product
    | [_], split => simp [s] at split; simp [← split.2.1] at product
    | [_, _], split =>
      simp [s] at split
      obtain ⟨rfl, rfl, rfl, _⟩ := split
      simp at product
      simp [product]
    | _ :: _ :: _ :: _, split => simp [s] at split
  have parsed := ok_of_toOption runs.1
  exact ⟨s, _, parsed, ok_of_toOption runs.2.2,
    (einsum_consistent_iff parsed runs.2.1).2.mpr (.inl guarded)⟩

theorem einsum_accepts_inconsistent :
    ∃ s t, parse "M[i*j, j*i], u[i], v[j] -> [i, j]" = .ok s ∧
      ¬ "...".toList <:+: "M[i*j, j*i], u[i], v[j] -> [i, j]".toList ∧
      [Tensor.counting [4, 9] 1, .counting [2] 1, .counting [3] 1].length = s.inputs.length ∧
      einsum "M[i*j, j*i], u[i], v[j] -> [i, j]" [.counting [4, 9] 1, .counting [2] 1, .counting [3] 1] =
        .ok t ∧
      ¬ s.Consistent [.counting [4, 9] 1, .counting [2] 1, .counting [3] 1] := by
  let s : Spec := ⟨[⟨some "M", [.product ["i", "j"], .product ["j", "i"]]⟩, ⟨some "u", [.named "i"]⟩,
      ⟨some "v", [.named "j"]⟩],
    some ⟨none, [.named "i", .named "j"]⟩, [("i", "A"), ("j", "B")]⟩
  have runs : (parse "M[i*j, j*i], u[i], v[j] -> [i, j]").toOption = some s ∧
      ¬ "...".toList <:+: "M[i*j, j*i], u[i], v[j] -> [i, j]".toList ∧
      (einsum "M[i*j, j*i], u[i], v[j] -> [i, j]"
        [.counting [4, 9] 1, .counting [2] 1, .counting [3] 1]).toOption.isSome = true := by
    decide +kernel
  obtain ⟨t, returned⟩ := Option.isSome_iff_exists.mp runs.2.2
  refine ⟨s, t, ok_of_toOption runs.1, runs.2.1, rfl, ok_of_toOption returned, ?_⟩
  rintro ⟨σ, shapes⟩
  have own := (List.forall₂_cons.mp shapes).1
  simp [Tensor.counting, Variable.shape, Axis.size] at own
  rw [Nat.mul_comm (σ "j")] at own
  omega

end Spec

end AxisLang
