import AxisLang.Proofs.Evaluation

/-! Evaluation with a wrong number of arrays.
The shape check pairs variables with arrays and passes on the pairs only. The contraction then finds
too few arrays if some are missing, and refuses them. It never sees arrays beyond the last variable:
these are ignored, where the fast evaluation refuses them. -/
namespace AxisLang

namespace Shape

theorem checkVariables_take (sizes : Sizes) (vs : List Variable) (shapes : List Shape) :
    checkVariables sizes vs (shapes.take vs.length) = checkVariables sizes vs shapes := by
  induction vs generalizing sizes shapes with
  | nil => simp only [checkVariables]
  | cons v vs ih =>
    cases shapes with
    | nil => rfl
    | cons shape shapes => simp only [List.length_cons, List.take_succ_cons, checkVariables, ih]

theorem splitAll_take (sizes : Sizes) {axes : List (List Axis)} {k : Nat} (enough : axes.length ≤ k)
    (shapes : List Shape) : splitAll sizes axes (shapes.take k) = splitAll sizes axes shapes := by
  induction axes generalizing k shapes with
  | nil => simp only [splitAll]
  | cons own axes ih =>
    obtain ⟨k, rfl⟩ : ∃ m, k = m + 1 := Nat.exists_eq_add_one.mpr (by simp at enough; omega)
    cases shapes with
    | nil => rfl
    | cons shape shapes =>
      simp only [List.take_succ_cons, splitAll, ih (Nat.le_of_succ_le_succ enough)]

theorem check_take (vs : List Variable) (shapes : List Shape) :
    check vs (shapes.take vs.length) = check vs shapes := by
  rw [check, check, checkVariables_take]
  cases scanned : checkVariables [] vs shapes with
  | error e => rfl
  | ok found =>
    obtain ⟨axes, sizes⟩ := found
    have length : axes.length ≤ vs.length := by
      rw [(checkVariables_eq_ok.mp scanned).2.1, List.length_map, List.length_zip]
      exact Nat.min_le_left ..
    exact splitAll_take sizes length shapes

end Shape

namespace Spec

open Contraction Shape

variable {s : Spec} {ts us : List Tensor}

theorem shapeCheck_take (s : Spec) (ts : List Tensor) :
    s.shapeCheck (ts.take s.inputs.length) = s.shapeCheck ts := by
  rw [shapeCheck, shapeCheck, List.map_take, check_take]
  cases checked : check s.inputs (ts.map (·.shape)) with
  | error e => rfl
  | ok shapes =>
    have length : shapes.length ≤ s.inputs.length := by
      obtain ⟨σ, _, rfl⟩ := check_eq_ok.mp checked
      rw [List.length_map, List.length_zip]
      exact Nat.min_le_left ..
    exact congrArg Except.ok (zipWith_take _ length ts)

theorem evaluate_take (s : Spec) (ts : List Tensor) :
    s.evaluate (ts.take s.inputs.length) = s.evaluate ts := by
  simp only [evaluate, evaluateAs, shapeCheck_take]

theorem contract_miscounted (other : us.length ≠ s.inputs.length) :
    contract s.compiled us = .error (.fault .value) := by
  rw [contract]
  cases contracted : contract? s.compiled us with
  | none => rfl
  | some r =>
    have count := (contract?_eq_some.mp contracted).1
    rw [compiled, List.length_map] at count
    exact absurd count.symm other

theorem WellFormed.evaluate_missing (h : s.WellFormed) (missing : ts.length < s.inputs.length) :
    ∃ x, s.evaluate ts = .error x ∧ (s.shapeCheck ts = .error x ∨ x = .fault .value) := by
  rw [evaluate, h.compile_eq]
  change ∃ x, s.evaluateAs s.compiled ts = .error x ∧ _
  rw [evaluateAs]
  cases checked : s.shapeCheck ts with
  | error x => exact ⟨x, rfl, .inl rfl⟩
  | ok us =>
    have count : us.length ≠ s.inputs.length := by
      obtain ⟨σ, _, rfl⟩ := shapeCheck_eq_ok.mp checked
      rw [splitBy, List.length_zipWith]
      omega
    refine ⟨.fault .value, ?_, .inr rfl⟩
    simp only [bind, Except.bind, contract_miscounted count]

theorem einsumFast_miscounted {text : String} (parsed : parse text = .ok s)
    (other : ts.length ≠ s.inputs.length) : einsumFast text ts = .error (.fault .value) := by
  rw [einsumFast_eq parsed, evaluateFast, (wellFormed_of_parse parsed).compile_eq]
  exact contract_miscounted other

def Refuses (text : String) (P : List Tensor → Prop) : Prop :=
  ∀ ts, (∀ t ∈ ts, t.data.size = volume t.shape) → P ts → ∃ x, einsum text ts = .error x

/-- Whether evaluation notices a wrong number of arrays. Missing arrays are always noticed, by the shape
check or by the contraction. Arrays beyond the last variable are ignored: the outcome is that of the
others alone. The fast evaluation refuses every wrong number. So evaluation refuses all wrong numbers
of arrays exactly if it refuses all right ones as well. -/
theorem einsum_operand_count {text : String} (parsed : parse text = .ok s) :
    (∀ ts, ts.length < s.inputs.length → ∃ x, einsum text ts = .error x ∧
      (s.shapeCheck ts = .error x ∨ x = .fault .value)) ∧
    (∀ ts, s.inputs.length < ts.length → einsum text ts = einsum text (ts.take s.inputs.length)) ∧
    (∀ ts, ts.length ≠ s.inputs.length → einsumFast text ts = .error (.fault .value)) ∧
    (Refuses text (fun ts => ts.length ≠ s.inputs.length) ↔
      Refuses text (fun ts => ts.length = s.inputs.length)) := by
  have formed := wellFormed_of_parse parsed
  have evaluates (ts : List Tensor) : einsum text ts = s.evaluate ts := einsum_eq parsed
  have missing : ∀ ts, ts.length < s.inputs.length → ∃ x, einsum text ts = .error x ∧
      (s.shapeCheck ts = .error x ∨ x = .fault .value) := by
    intro ts few
    rw [evaluates]
    exact formed.evaluate_missing few
  have surplus (ts : List Tensor) : einsum text ts = einsum text (ts.take s.inputs.length) := by
    rw [evaluates, evaluates, evaluate_take]
  refine ⟨missing, fun ts _ => surplus ts, fun ts => einsumFast_miscounted parsed, ?_, ?_⟩
  · intro refuses ts sized count
    -- one more array makes the number wrong and is ignored
    have more := refuses (ts ++ [.counting [] 1]) ?_ (by simp [count])
    · rwa [surplus, ← count, List.take_left] at more
    · intro t mem
      rcases List.mem_append.mp mem with mem | mem
      · exact sized t mem
      · rw [List.mem_singleton.mp mem]
        rfl
  · intro refuses ts sized other
    rcases Nat.lt_or_gt_of_ne other with few | many
    · obtain ⟨x, error, _⟩ := missing ts few
      exact ⟨x, error⟩
    · rw [surplus]
      exact refuses _ (fun t mem => sized t (List.mem_of_mem_take mem)) (List.length_take_of_le many.le)

theorem einsum_operand_count_product :
    (∃ x, einsum "x[i, j], y[j] -> [i]" [.counting [2, 3] 1] = .error x) ∧
      einsum "x[i, j], y[j] -> [i]" [.counting [2, 3] 1, .counting [3] 1, .counting [4] 1] =
        .ok ⟨[2], #[14, 32]⟩ ∧
      einsumFast "x[i, j], y[j] -> [i]" [.counting [2, 3] 1, .counting [3] 1, .counting [4] 1] =
        .error (.fault .value) := by
  let s : Spec := ⟨[⟨some "x", [.named "i", .named "j"]⟩, ⟨some "y", [.named "j"]⟩],
    some ⟨none, [.named "i"]⟩, [("i", "A"), ("j", "B")]⟩
  have runs : (parse "x[i, j], y[j] -> [i]").toOption = some s ∧
      (s.evaluate [.counting [2, 3] 1, .counting [3] 1]).toOption = some ⟨[2], #[14, 32]⟩ := by
    decide +kernel
  have parsed := ok_of_toOption runs.1
  obtain ⟨missing, surplus, fast, _⟩ := einsum_operand_count parsed
  obtain ⟨x, error, _⟩ := missing [.counting [2, 3] 1] (by decide)
  refine ⟨⟨x, error⟩, ?_, fast _ (by decide)⟩
  rw [surplus _ (by decide)]
  exact (einsum_eq parsed).trans (ok_of_toOption runs.2)

/-- One variable, two arrays: the second is ignored, where the fast evaluation refuses both. -/
theorem einsum_ignores_surplus :
    ∃ s, parse "a[i] -> [i]" = .ok s ∧ s.inputs.length = 1 ∧
      einsum "a[i] -> [i]" [.counting [2] 1, .counting [3] 1] = .ok (.counting [2] 1) ∧
      einsumFast "a[i] -> [i]" [.counting [2] 1, .counting [3] 1] = .error (.fault .value) := by
  let s : Spec := ⟨[⟨some "a", [.named "i"]⟩], some ⟨none, [.named "i"]⟩, [("i", "A")]⟩
  have runs : (parse "a[i] -> [i]").toOption = some s ∧
      (s.evaluate [.counting [2] 1, .counting [3] 1]).toOption = some (.counting [2] 1) := by
    decide +kernel
  have parsed := ok_of_toOption runs.1
  exact ⟨s, parsed, rfl, (einsum_eq parsed).trans (ok_of_toOption runs.2),
    einsumFast_miscounted parsed (by decide)⟩

end Spec

end AxisLang
