import AxisLang.Proofs.Ellipsis
import AxisLang.Proofs.Evaluation

/-! Where an ellipsis may stand in a variable.
The check keeps the axes before the ellipsis and as many axes at the end, and puts all spare dimensions
in the place of each axis between them. So it reads a variable as it is written only if its ellipsis
stands in the middle. A later ellipsis is itself taken for an axis, which always fails. An earlier one
is not the only axis to be replaced: then more dimensions are asked for than an array of higher rank has,
and the axes between are never looked at. -/
namespace AxisLang

structure Variable.DotsAt (v : Variable) (e : Nat) : Prop where
  single : v.axes.count .ellipsis = 1
  place : v.axes[e]? = some .ellipsis

namespace Variable.DotsAt

variable {v : Variable} {e : Nat}

theorem axes_eq (h : v.DotsAt e) : v.axes = v.axes.take e ++ .ellipsis :: v.axes.drop (e + 1) :=
  take_append_cons_drop h.place

theorem length_take (h : v.DotsAt e) : (v.axes.take e).length = e :=
  List.length_take_of_le (List.getElem?_eq_some_iff.mp h.place).1.le

theorem solid (h : v.DotsAt e) : ∀ a ∈ v.axes.take e ++ v.axes.drop (e + 1), a.isEllipsis = false := by
  have total := (congrArg (List.count .ellipsis) h.axes_eq).symm.trans h.single
  rw [List.count_append, List.count_cons_self] at total
  have none : (v.axes.take e ++ v.axes.drop (e + 1)).count .ellipsis = 0 := by
    rw [List.count_append]
    omega
  exact Axis.solid_of_notMem (List.count_eq_zero.mp none)

theorem findIdx?_eq (h : v.DotsAt e) : v.axes.findIdx? Axis.isEllipsis = some e := by
  have axes : v.axes = v.axes.take e ++ ((.ellipsis :: v.axes.drop (e + 1)) ++ []) := by
    rw [List.append_nil]
    exact h.axes_eq
  have solid : ∀ a ∈ v.axes.take e ++ (v.axes.drop (e + 1) ++ []), a.isEllipsis = false := by
    rw [List.append_nil]
    exact h.solid
  rw [Shape.findIdx?_dots axes solid, h.length_take]

end Variable.DotsAt

namespace Shape

variable {v : Variable} {e : Nat} {shape : Shape} {sizes sizes' : Sizes}

theorem material_dotsAt (dots : v.DotsAt e) (early : 2 * e < v.axes.length) (shape : Shape) :
    material v shape = v.axes.take e ++
      ((List.replicate (v.axes.length - 2 * e) (spareAxes (shape.length + 1 - v.axes.length))).flatten ++
        v.axes.drop (v.axes.length - e)) := by
  have rest : v.axes.drop (e + 1) = (v.axes.drop (e + 1)).take (v.axes.length - 2 * e - 1) ++
      v.axes.drop (v.axes.length - e) := by
    conv_lhs => rw [← List.take_append_drop (v.axes.length - 2 * e - 1) (v.axes.drop (e + 1))]
    rw [List.drop_drop, show e + 1 + (v.axes.length - 2 * e - 1) = v.axes.length - e by omega]
  have axes := dots.axes_eq
  have solid := dots.solid
  rw [rest] at axes solid
  have even : (v.axes.drop (v.axes.length - e)).length = (v.axes.take e).length := by
    rw [dots.length_take, List.length_drop]
    omega
  have length : (Axis.ellipsis :: (v.axes.drop (e + 1)).take (v.axes.length - 2 * e - 1)).length =
      v.axes.length - 2 * e := by
    rw [List.length_cons, List.length_take, List.length_drop]
    omega
  rw [material_dots shape axes even solid, List.flatMap_def, List.map_const', length]

theorem length_material_dotsAt (dots : v.DotsAt e) (early : 2 * e < v.axes.length) (shape : Shape) :
    (material v shape).length =
      2 * e + (v.axes.length - 2 * e) * (shape.length + 1 - v.axes.length) := by
  rw [material_dotsAt dots early, List.length_append, List.length_append, dots.length_take,
    List.length_drop]
  simp [spareAxes]
  omega

theorem checkVariable_dotsAt (dots : v.DotsAt e) (sizes : Sizes) (shape : Shape) :
    checkVariable sizes v shape =
      checkAxes sizes (material v shape) shape >>= fun known => .ok (material v shape, known) := by
  have single : ¬ 1 < v.axes.countP Axis.isEllipsis := by
    rw [Axis.countP_isEllipsis, dots.single]
    omega
  rw [checkVariable, ellipsisPlace, if_neg single, material, dots.findIdx?_eq]
  rfl

theorem checkAxes_append (sizes : Sizes) {front back : List Axis} {low high : Shape}
    (same : front.length = low.length) :
    checkAxes sizes (front ++ back) (low ++ high) =
      checkAxes sizes front low >>= fun known => checkAxes known back high := by
  induction front generalizing sizes low with
  | nil =>
    obtain rfl := List.length_eq_zero_iff.mp same.symm
    rfl
  | cons a front ih =>
    cases low with
    | nil => cases same
    | cons n low =>
      simp only [List.cons_append, checkAxes, bind_assoc, ih _ (Nat.succ.inj same)]

theorem checkVariables_append (sizes : Sizes) {vs ws : List Variable} {shapes more : List Shape}
    (same : vs.length = shapes.length) :
    checkVariables sizes (vs ++ ws) (shapes ++ more) = (do
      let first ← checkVariables sizes vs shapes
      let rest ← checkVariables first.2 ws more
      return (first.1 ++ rest.1, rest.2)) := by
  induction vs generalizing sizes shapes with
  | nil =>
    obtain rfl := List.length_eq_zero_iff.mp same.symm
    exact (bind_pure (checkVariables sizes ws more)).symm
  | cons v vs ih =>
    cases shapes with
    | nil => cases same
    | cons shape shapes =>
      simp only [List.cons_append, checkVariables, bind_assoc, ih _ (Nat.succ.inj same), pure_bind]

theorem step_inv {d : Axis × Nat} (passed : step sizes d = .ok sizes') :
    (sizes' = sizes ∧ ∀ n, d.1 = .named n → (sizes.lookup n).isSome) ∨
      ∃ n, d.1 = .named n ∧ sizes' = sizes ++ [(n, d.2)] := by
  obtain ⟨a, k⟩ := d
  rw [step] at passed
  cases a with
  | named m =>
    rw [checkAxis] at passed
    cases known : sizes.lookup m with
    | none =>
      simp only [known] at passed
      exact .inr ⟨m, rfl, (Except.ok.inj passed).symm⟩
    | some p =>
      simp only [known] at passed
      split at passed
      · refine .inl ⟨(Except.ok.inj passed).symm, fun n same => ?_⟩
        rw [← Axis.named.inj same, known]
        rfl
      · cases passed
  | product ns =>
    rw [checkAxis] at passed
    have kept : sizes' = sizes := by
      cases size : productSize? sizes ns with
      | none =>
        simp only [size] at passed
        exact (Except.ok.inj passed).symm
      | some p =>
        simp only [size] at passed
        split at passed
        · exact (Except.ok.inj passed).symm
        · cases passed
    exact .inl ⟨kept, fun n same => Axis.noConfusion same⟩
  | ellipsis => cases passed

theorem lookup_step {d : Axis × Nat} {n : String} (passed : step sizes d = .ok sizes') :
    (sizes'.lookup n).isSome ↔ (sizes.lookup n).isSome ∨ d.1 = .named n := by
  rcases step_inv passed with ⟨rfl, known⟩ | ⟨m, name, rfl⟩
  · exact ⟨.inl, fun h => h.elim id (known n)⟩
  · rw [List.lookup_append, Option.isSome_or, Bool.or_eq_true, name, Axis.named.injEq]
    by_cases same : m = n
    · simp [same]
    · simp [List.lookup_cons, beq_false_of_ne (Ne.symm same), same]

theorem lookup_foldlM_step {scan : List (Axis × Nat)} {n : String}
    (passed : scan.foldlM step sizes = .ok sizes') :
    (sizes'.lookup n).isSome ↔ (sizes.lookup n).isSome ∨ .named n ∈ scan.map Prod.fst := by
  induction scan generalizing sizes with
  | nil =>
    obtain rfl := Except.ok.inj passed
    simp
  | cons d scan ih =>
    rw [List.foldlM_cons, bind_eq_ok_iff] at passed
    obtain ⟨next, first, rest⟩ := passed
    rw [ih rest, lookup_step first, or_assoc, List.map_cons, List.mem_cons, eq_comm (a := d.1)]

theorem mem_material_dotsAt (dots : v.DotsAt e) (early : 2 * e < v.axes.length) {a : Axis} :
    a ∈ material v shape ↔ a ∈ v.axes.take e ∨ a ∈ spareAxes (shape.length + 1 - v.axes.length) ∨
      a ∈ v.axes.drop (v.axes.length - e) := by
  have some : v.axes.length - 2 * e ≠ 0 := by omega
  rw [material_dotsAt dots early, List.mem_append, List.mem_append, List.mem_flatten]
  simp only [List.mem_replicate, some, ne_eq, not_false_eq_true, true_and, exists_eq_left]

theorem lookup_checkVariable (dots : v.DotsAt e) (early : 2 * e < v.axes.length) {axes : List Axis}
    {n : String} (passed : checkVariable sizes v shape = .ok (axes, sizes')) :
    (sizes'.lookup n).isSome ↔ (sizes.lookup n).isSome ∨ .named n ∈ v.axes.take e ∨
      .named n ∈ spareAxes (shape.length + 1 - v.axes.length) ∨
      .named n ∈ v.axes.drop (v.axes.length - e) := by
  obtain ⟨admits, _, folded⟩ := checkVariable_eq_ok.mp passed
  rw [lookup_foldlM_step folded, List.map_fst_zip admits.enough, mem_material_dotsAt dots early]

theorem material_replaced {w : Variable} (dots : v.DotsAt e) (other : w.DotsAt e)
    (early : 2 * e < v.axes.length) (length : w.axes.length = v.axes.length)
    (front : w.axes.take e = v.axes.take e)
    (back : w.axes.drop (w.axes.length - e) = v.axes.drop (v.axes.length - e)) :
    material w shape = material v shape := by
  rw [material_dotsAt dots early, material_dotsAt other (length ▸ early), front, back, length]

end Shape

namespace Spec

open Shape

variable {s : Spec} {ts : List Tensor} {v : Variable} {t : Tensor} {k e : Nat}

/-- What the shape check does once it has gone through the variables: it splits the arrays. -/
def splitFound (ts : List Tensor) (found : List (List Axis) × Sizes) : Except ExprError (List Tensor) := do
  let shapes ← splitAll found.2 found.1 (ts.map (·.shape))
  return shapes.zipWith (fun shape t => ⟨shape, t.data⟩) ts

/-- The shape check with a check of its own for the variable of the given number, whose dimensions have
the given axes. -/
def checkAround (s : Spec) (ts : List Tensor) (k : Nat) (axes : List Axis)
    (own : Sizes → Except ExprError Sizes) : Except ExprError (List Tensor) := do
  let earlier ← checkVariables [] (s.inputs.take k) ((ts.take k).map (·.shape))
  let sizes ← own earlier.2
  let later ← checkVariables sizes (s.inputs.drop (k + 1)) ((ts.drop (k + 1)).map (·.shape))
  splitFound ts (earlier.1 ++ axes :: later.1, later.2)

theorem shapeCheck_eq_checkAround (input : s.inputs[k]? = some v) (array : ts[k]? = some t)
    (dots : v.DotsAt e) :
    s.shapeCheck ts = s.checkAround ts k (material v t.shape)
      fun sizes => checkAxes sizes (material v t.shape) t.shape := by
  have start : s.shapeCheck ts = checkVariables [] s.inputs (ts.map (·.shape)) >>= splitFound ts := by
    rw [shapeCheck, check, bind_assoc]
    rfl
  have shapes : ts.map (·.shape) =
      (ts.take k).map (·.shape) ++ t.shape :: (ts.drop (k + 1)).map (·.shape) := by
    conv_lhs => rw [take_append_cons_drop array]
    rw [List.map_append, List.map_cons]
  have length : (s.inputs.take k).length = ((ts.take k).map (·.shape)).length := by
    have first := (List.getElem?_eq_some_iff.mp input).1
    have second := (List.getElem?_eq_some_iff.mp array).1
    rw [List.length_map, List.length_take, List.length_take]
    omega
  rw [start, checkAround, shapes]
  conv_lhs => rw [take_append_cons_drop input, checkVariables_append [] length]
  simp only [checkVariables, checkVariable_dotsAt dots, bind_assoc, pure_bind]
  rfl

theorem shapeCheck_centred (input : s.inputs[k]? = some v) (array : ts[k]? = some t)
    (dots : v.DotsAt e) (middle : v.axes.length = 2 * e + 1) (enough : v.axes.length ≤ t.rank + 1) :
    ∃ low spare high, t.shape = low ++ (spare ++ high) ∧ low.length = e ∧
      spare.length = t.rank + 1 - v.axes.length ∧ high.length = e ∧
      s.shapeCheck ts =
        s.checkAround ts k (v.axes.take e ++ (spareAxes spare.length ++ v.axes.drop (e + 1)))
          (fun sizes => do
            let sizes ← checkAxes sizes (v.axes.take e) low
            let sizes ← checkAxes sizes (spareAxes spare.length) spare
            checkAxes sizes (v.axes.drop (e + 1)) high) := by
  rw [Tensor.rank] at enough ⊢
  have laid := material_dotsAt dots (by omega) t.shape
  rw [show v.axes.length - 2 * e = 1 by omega, show v.axes.length - e = e + 1 by omega,
    List.replicate_one, List.flatten_singleton] at laid
  generalize spares : t.shape.length + 1 - v.axes.length = r at laid ⊢
  have cut : t.shape = t.shape.take e ++ ((t.shape.drop e).take r ++ (t.shape.drop e).drop r) := by
    rw [List.take_append_drop, List.take_append_drop]
  have first : (t.shape.take e).length = e := List.length_take_of_le (by omega)
  have second : ((t.shape.drop e).take r).length = r :=
    List.length_take_of_le (by rw [List.length_drop]; omega)
  have third : ((t.shape.drop e).drop r).length = e := by
    rw [List.length_drop, List.length_drop]
    omega
  refine ⟨_, _, _, cut, first, second, third, ?_⟩
  rw [shapeCheck_eq_checkAround input array dots, laid, second]
  congr 1
  funext sizes
  conv_lhs => rw [cut, checkAxes_append _ (dots.length_take.trans first.symm)]
  congr 1
  funext known
  refine checkAxes_append known (Eq.trans ?_ second.symm)
  rw [spareAxes, List.length_map, List.length_range]

theorem le_rank_of_shapeCheck {us : List Tensor} (input : s.inputs[k]? = some v)
    (array : ts[k]? = some t) (dots : v.DotsAt e) (early : 2 * e < v.axes.length)
    (checked : s.shapeCheck ts = .ok us) :
    2 * e + (v.axes.length - 2 * e) * (t.rank + 1 - v.axes.length) ≤ t.rank := by
  obtain ⟨σ, accepts, _⟩ := shapeCheck_eq_ok.mp checked
  have enough := (accepts.admits _ (mem_paired_of_getElem? input array)).enough
  rwa [length_material_dotsAt dots early] at enough

theorem exists_size_of_shapeCheck {us : List Tensor} (input : s.inputs[k]? = some v)
    (array : ts[k]? = some t) (dots : v.DotsAt e) (early : 2 * e < v.axes.length)
    (rank : t.rank = v.axes.length) (checked : s.shapeCheck ts = .ok us) :
    ∃ size, ∀ i, e ≤ i → i < v.axes.length - e → t.shape[i]? = some size := by
  obtain ⟨σ, accepts, _⟩ := shapeCheck_eq_ok.mp checked
  have pair := mem_paired_of_getElem? input array
  have laid := material_dotsAt dots early t.shape
  rw [Tensor.rank] at rank
  rw [show t.shape.length + 1 - v.axes.length = 1 by omega, show spareAxes 1 = [spareAxis 0] from rfl,
    List.flatten_replicate_singleton] at laid
  refine ⟨σ "!ellipsis_0", fun i low high => ?_⟩
  have axis : (material v t.shape)[i]? = some (spareAxis 0) := by
    rw [laid, List.getElem?_append_right (by rw [dots.length_take]; exact low), dots.length_take,
      List.getElem?_append_left (by rw [List.length_replicate]; omega),
      List.getElem?_replicate_of_lt (by omega)]
  have inside : i < t.shape.length := by omega
  have dim : (spareAxis 0, t.shape[i]) ∈ (material v t.shape).zip t.shape :=
    List.mem_of_getElem? (List.getElem?_zip_eq_some.mpr ⟨axis, List.getElem?_eq_getElem inside⟩)
  rw [List.getElem?_eq_getElem inside]
  exact congrArg some (accepts.agrees.named _ _ (Accepts.mem_scan pair dim))

theorem shapeCheck_replaced {w : Variable} (input : s.inputs[k]? = some v) (array : ts[k]? = some t)
    (dots : v.DotsAt e) (other : w.DotsAt e) (early : 2 * e < v.axes.length)
    (length : w.axes.length = v.axes.length)
    (same : ∀ i, i < e ∨ v.axes.length - e ≤ i → w.axes[i]? = v.axes[i]?) :
    ({ s with inputs := s.inputs.set k w } : Spec).shapeCheck ts = s.shapeCheck ts := by
  have front : w.axes.take e = v.axes.take e := by
    apply List.ext_getElem?
    intro i
    rw [List.getElem?_take, List.getElem?_take]
    split
    · next low => exact same i (.inl low)
    · rfl
  have back : w.axes.drop (w.axes.length - e) = v.axes.drop (v.axes.length - e) := by
    apply List.ext_getElem?
    intro i
    rw [List.getElem?_drop, List.getElem?_drop, length]
    exact same _ (.inr (by omega))
  have inside := (List.getElem?_eq_some_iff.mp input).1
  have replaced : (s.inputs.set k w)[k]? = some w := List.getElem?_set_self inside
  rw [shapeCheck_eq_checkAround input array dots, shapeCheck_eq_checkAround replaced array other,
    material_replaced dots other early length front back, checkAround, checkAround]
  dsimp only
  rw [List.take_set_of_le (Nat.le_refl k), List.drop_set_of_lt (Nat.lt_succ_self k)]

/-- Which places of an ellipsis the shape check supports. Let a variable have one ellipsis, at index `e`
of its `n` axes, and let its array have rank `d`.
In the middle (`n = 2 e + 1`) it is read as it is written: in the course of the check, the axes before
the ellipsis are compared with the first `e` dimensions, spare names with the next `d - n + 1`, and the
axes after it with the last `e`; with `d < n - 1` the check fails.
Behind the middle it fails for every array.
Before the middle it fails for `d > n`, and passes for `d = n` only if the dimensions from `e` to
`n - e - 1` have one size. The axes at the indices from `e + 1` to `n - e - 1` get no size from the
variable: a name that is known after it was known before, or is a spare name, or is the name of an
axis at another index; and any other axes in their place leave the whole check as it is. -/
theorem shapeCheck_by_placement (input : s.inputs[k]? = some v) (array : ts[k]? = some t)
    (dots : v.DotsAt e) :
    (v.axes.length = 2 * e + 1 →
      (v.axes.length ≤ t.rank + 1 →
        ∃ low spare high, t.shape = low ++ (spare ++ high) ∧ low.length = e ∧
          spare.length = t.rank + 1 - v.axes.length ∧ high.length = e ∧
          s.shapeCheck ts =
            s.checkAround ts k (v.axes.take e ++ (spareAxes spare.length ++ v.axes.drop (e + 1)))
              (fun sizes => do
                let sizes ← checkAxes sizes (v.axes.take e) low
                let sizes ← checkAxes sizes (spareAxes spare.length) spare
                checkAxes sizes (v.axes.drop (e + 1)) high)) ∧
      (t.rank + 1 < v.axes.length → ∃ x, s.shapeCheck ts = .error x)) ∧
    (v.axes.length < 2 * e + 1 → ∃ x, s.shapeCheck ts = .error x) ∧
    (2 * e + 1 < v.axes.length →
      (v.axes.length < t.rank → ∃ x, s.shapeCheck ts = .error x) ∧
      (t.rank = v.axes.length → ∀ us, s.shapeCheck ts = .ok us →
        ∃ size, ∀ i, e ≤ i → i < v.axes.length - e → t.shape[i]? = some size) ∧
      (∀ sizes axes sizes' n, checkVariable sizes v t.shape = .ok (axes, sizes') →
        ((sizes'.lookup n).isSome ↔ (sizes.lookup n).isSome ∨ .named n ∈ v.axes.take e ∨
          .named n ∈ spareAxes (t.rank + 1 - v.axes.length) ∨
          .named n ∈ v.axes.drop (v.axes.length - e))) ∧
      ∀ w : Variable, w.DotsAt e → w.axes.length = v.axes.length →
        (∀ i, i < e ∨ v.axes.length - e ≤ i → w.axes[i]? = v.axes[i]?) →
        ({ s with inputs := s.inputs.set k w } : Spec).shapeCheck ts = s.shapeCheck ts) := by
  refine ⟨fun middle => ⟨shapeCheck_centred input array dots middle, fun low => ?_⟩, fun late => ?_,
    fun early => ⟨fun high => ?_, ?_, ?_, ?_⟩⟩
  · refine exists_error fun us checked => ?_
    have enough := le_rank_of_shapeCheck input array dots (by omega) checked
    omega
  · refine exists_error fun us checked => ?_
    obtain ⟨σ, accepts, _⟩ := shapeCheck_eq_ok.mp checked
    have inside : .ellipsis ∈ material v t.shape :=
      ellipsis_mem_material dots.findIdx?_eq (Nat.le_of_lt_succ late)
    have solid := accepts.solid (mem_paired_of_getElem? input array) _ inside
    cases solid
  · refine exists_error fun us checked => ?_
    have enough := le_rank_of_shapeCheck input array dots (by omega) checked
    -- at least two axes give way, each to at least two dimensions
    have more : v.axes.length - 2 * e + (t.rank + 1 - v.axes.length) ≤
        (v.axes.length - 2 * e) * (t.rank + 1 - v.axes.length) := add_le_mul (by omega) (by omega)
    omega
  · exact fun rank us => exists_size_of_shapeCheck input array dots (by omega) rank
  · exact fun sizes axes sizes' n => lookup_checkVariable dots (by omega)
  · exact fun w other => shapeCheck_replaced input array dots other (by omega)

theorem shapeCheck_by_placement_kinds :
    ∃ centred late early : Spec,
      centred.inputs.map Variable.axes = [[.named "i"], [.named "i", .ellipsis, .named "j"]] ∧
      late.inputs.map Variable.axes = [[.named "i", .ellipsis]] ∧
      early.inputs.map Variable.axes = [[.ellipsis, .named "i"]] ∧
      (∃ low spare high, [2, 5, 7, 3] = low ++ (spare ++ high) ∧ low.length = 1 ∧ spare.length = 2 ∧
        high.length = 1 ∧
        centred.shapeCheck [.counting [2] 1, .counting [2, 5, 7, 3] 1] =
          centred.checkAround [.counting [2] 1, .counting [2, 5, 7, 3] 1] 1
            ([.named "i"] ++ (spareAxes spare.length ++ [.named "j"])) (fun sizes => do
              let sizes ← checkAxes sizes [.named "i"] low
              let sizes ← checkAxes sizes (spareAxes spare.length) spare
              checkAxes sizes [.named "j"] high)) ∧
      (∃ x, late.shapeCheck [.counting [2, 2] 1] = .error x) ∧
      (∃ x, early.shapeCheck [.counting [2, 2, 2] 1] = .error x) ∧
      early.shapeCheck [.counting [3, 3] 1] = .ok [.counting [3, 3] 1] ∧
      ∃ size, ∀ i, 0 ≤ i → i < 2 → [3, 3][i]? = some size := by
  let centred : Spec := ⟨[⟨some "a", [.named "i"]⟩, ⟨some "x", [.named "i", .ellipsis, .named "j"]⟩],
    none, []⟩
  let late : Spec := ⟨[⟨some "x", [.named "i", .ellipsis]⟩], none, []⟩
  let early : Spec := ⟨[⟨some "x", [.ellipsis, .named "i"]⟩], none, []⟩
  have checked : (early.shapeCheck [.counting [3, 3] 1]).toOption = some [.counting [3, 3] 1] := by decide
  have passed := ok_of_toOption checked
  have pair : [Tensor.counting [2] 1, .counting [2, 5, 7, 3] 1][1]? = some (.counting [2, 5, 7, 3] 1) := rfl
  have alone (t : Tensor) : [t][0]? = some t := rfl
  have first := shapeCheck_by_placement (s := centred) (e := 1) rfl pair ⟨rfl, rfl⟩
  have second := shapeCheck_by_placement (s := late) (e := 1) rfl (alone (.counting [2, 2] 1)) ⟨rfl, rfl⟩
  have third := shapeCheck_by_placement (s := early) (e := 0) rfl (alone (.counting [2, 2, 2] 1)) ⟨rfl, rfl⟩
  have fourth := shapeCheck_by_placement (s := early) (e := 0) rfl (alone (.counting [3, 3] 1)) ⟨rfl, rfl⟩
  exact ⟨centred, late, early, rfl, rfl, rfl, (first.1 rfl).1 (by decide), second.2.1 (by decide),
    (third.2.2 (by decide)).1 (by decide), passed, (fourth.2.2 (by decide)).2.1 rfl _ passed⟩

end Spec

end AxisLang
