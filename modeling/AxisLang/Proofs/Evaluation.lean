import AxisLang.Proofs.AcceptedShapes
import AxisLang.Proofs.Broadcast
import AxisLang.Proofs.Subscripts

/-! The stages of evaluation: what each must have done for the whole to have a result. -/
namespace AxisLang

namespace Spec

open Contraction

variable {s : Spec} {ts us : List Tensor} {t : Tensor}

/-- The input variables with the shapes of the arrays given for them. -/
def paired (s : Spec) (ts : List Tensor) : List (Variable × Shape) :=
  s.inputs.zip (ts.map (·.shape))

/-- The arrays with their products split, for given sizes of the names. -/
def splitBy (σ : String → Nat) (s : Spec) (ts : List Tensor) : List Tensor :=
  s.inputs.zipWith (fun v t => ⟨(Shape.dimNames (v, t.shape)).map σ, t.data⟩) ts

theorem length_splitBy {σ : String → Nat} (count : ts.length = s.inputs.length) :
    (s.splitBy σ ts).length = s.inputs.length := by
  rw [splitBy, List.length_zipWith, count, Nat.min_self]

theorem paired_eq (s : Spec) (ts : List Tensor) :
    s.paired ts = (s.inputs.zip ts).map fun y => (y.1, y.2.shape) := by
  rw [paired, List.zip_map_right]
  rfl

theorem mem_paired {y : Variable × Tensor} (mem : y ∈ s.inputs.zip ts) :
    (y.1, y.2.shape) ∈ s.paired ts := by
  rw [paired_eq]
  exact List.mem_map_of_mem mem

theorem mem_paired_of_getElem? {v : Variable} {k : Nat} (input : s.inputs[k]? = some v)
    (array : ts[k]? = some t) : (v, t.shape) ∈ s.paired ts := by
  refine mem_paired (y := (v, t)) (List.mem_of_getElem? (i := k) ?_)
  rw [List.getElem?_zip_eq_some]
  exact ⟨input, array⟩

theorem map_fst_paired (count : ts.length = s.inputs.length) : (s.paired ts).map Prod.fst = s.inputs := by
  rw [paired, List.map_fst_zip]
  rw [List.length_map, count]

def samples (xs : List (Variable × Shape)) : List Tensor :=
  xs.map fun x => Tensor.counting x.2 1

theorem zip_samples {xs : List (Variable × Shape)} (inputs : xs.map Prod.fst = s.inputs) :
    s.inputs.zip (samples xs) = xs.map fun x => (x.1, Tensor.counting x.2 1) := by
  rw [← inputs, samples, List.zip_map']

theorem paired_samples {xs : List (Variable × Shape)} (inputs : xs.map Prod.fst = s.inputs) :
    s.paired (samples xs) = xs := by
  rw [paired_eq, zip_samples inputs, List.map_map]
  exact List.map_id _

theorem length_samples {xs : List (Variable × Shape)} (inputs : xs.map Prod.fst = s.inputs) :
    (samples xs).length = s.inputs.length := by
  rw [samples, ← inputs, List.length_map, List.length_map]

theorem size_samples {xs : List (Variable × Shape)} : ∀ t ∈ samples xs, t.data.size = volume t.shape := by
  intro t mem
  obtain ⟨x, _, rfl⟩ := List.mem_map.mp mem
  simp [Tensor.counting]

def termOf (σ : String → Nat) (s : Spec) (y : Variable × Tensor) : List Subscript × Tensor :=
  (y.1.flattened.map (Axis.subscript s.letterOf), ⟨(Shape.dimNames (y.1, y.2.shape)).map σ, y.2.data⟩)

theorem zip_splitBy (σ : String → Nat) (s : Spec) (ts : List Tensor) :
    s.compiled.inputs.zip (s.splitBy σ ts) = (s.inputs.zip ts).map (s.termOf σ) := by
  rw [compiled, splitBy]
  induction s.inputs generalizing ts with
  | nil => rfl
  | cons v vs ih =>
    cases ts with
    | nil => rfl
    | cons t ts => exact congrArg _ (ih ts)

theorem shapeCheck_eq_ok :
    s.shapeCheck ts = .ok us ↔ ∃ σ, Shape.Accepts σ (s.paired ts) ∧ us = s.splitBy σ ts := by
  have split (σ : String → Nat) (vs : List Variable) (ts : List Tensor) :
      ((vs.zip (ts.map (·.shape))).map fun x => (Shape.dimNames x).map σ).zipWith
          (fun shape t => Tensor.mk shape t.data) ts =
        vs.zipWith (fun v t => ⟨(Shape.dimNames (v, t.shape)).map σ, t.data⟩) ts := by
    induction vs generalizing ts with
    | nil => rfl
    | cons v vs ih =>
      cases ts with
      | nil => rfl
      | cons t ts => exact congrArg _ (ih ts)
  rw [shapeCheck, bind_eq_ok_iff]
  simp only [Shape.check_eq_ok]
  constructor
  · rintro ⟨_, ⟨σ, accepts, rfl⟩, result⟩
    exact ⟨σ, accepts, (Except.ok.inj result).symm.trans (split σ s.inputs ts)⟩
  · rintro ⟨σ, accepts, rfl⟩
    exact ⟨_, ⟨σ, accepts, rfl⟩, congrArg Except.ok (split σ s.inputs ts)⟩

theorem contract_eq_ok {c : Compiled} : contract c ts = .ok t ↔ contract? c ts = some t := by
  rw [contract]
  cases contract? c ts <;> simp

theorem WellFormed.evaluateFast_eq_ok (h : s.WellFormed) :
    s.evaluateFast ts = .ok t ↔ contract? s.compiled ts = some t := by
  rw [evaluateFast, h.compile_eq]
  exact contract_eq_ok

theorem WellFormed.evaluate_eq_ok (h : s.WellFormed) :
    s.evaluate ts = .ok t ↔ ∃ us r shape, s.shapeCheck ts = .ok us ∧ contract? s.compiled us = some r ∧
      s.outputShape r.shape = .ok shape ∧ volume shape = volume r.shape ∧ t = ⟨shape, r.data⟩ := by
  simp only [evaluate, evaluateAs, h.compile_eq, bind_eq_ok_iff, contract_eq_ok, Tensor.reshape?,
    Except.ok.injEq, exists_eq_left']
  constructor
  · rintro ⟨us, checked, r, contracted, shape, collapsed, result⟩
    by_cases same : volume shape = volume r.shape
    · rw [if_pos same] at result
      exact ⟨us, r, shape, checked, contracted, collapsed, same, (Except.ok.inj result).symm⟩
    · rw [if_neg same] at result
      cases result
  · rintro ⟨us, r, shape, checked, contracted, collapsed, same, rfl⟩
    exact ⟨us, checked, r, contracted, shape, collapsed, by rw [if_pos same]; rfl⟩

theorem einsum_eq {text : String} (parsed : parse text = .ok s) : einsum text ts = s.evaluate ts := by
  rw [einsum, parsed]
  rfl

theorem einsumFast_eq {text : String} (parsed : parse text = .ok s) :
    einsumFast text ts = s.evaluateFast ts := by
  rw [einsumFast, parsed]
  rfl

end Spec

end AxisLang
