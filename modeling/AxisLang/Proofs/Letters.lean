import AxisLang.Expression.Spec
import AxisLang.Proofs.Lists

/-! The letters of axis names.
Names get letters in the order in which they first occur in the inputs, as far as the letters go. This
decides, for the variables of an expression, between the errors and the result. -/
namespace AxisLang

def alphabet : List String :=
  axisLetters.map String.singleton

theorem alphabet_length : alphabet.length = 52 := by decide +kernel

theorem alphabet_nodup : alphabet.Nodup := by decide +kernel

theorem letterAt_eq (axis : String) (i : Nat) :
    letterAt axis i =
      match alphabet[i]? with
      | some s => .ok s
      | none => .error (.tooManyAxes axis i) := by
  have length : axisLetters.length = 52 := by decide +kernel
  rw [letterAt, alphabet, List.getElem?_map, itemAt?]
  by_cases inside : i < 52
  · have item : axisLetters[i]? = some axisLetters[i] := List.getElem?_eq_getElem (by omega)
    have small : ¬ ((axisLetters.length : Int) ≤ i) := by omega
    simp [small, item]
  · have none : axisLetters[i]? = none := List.getElem?_eq_none (by omega)
    have large : (axisLetters.length : Int) ≤ i := by omega
    simp [large, none]

namespace Letters

def ofNames (ns : List String) : Letters :=
  ns.zip alphabet

theorem isSome_lookup_ofNames {ns : List String} (few : ns.length ≤ 52) (n : String) :
    ((ofNames ns).lookup n).isSome = true ↔ n ∈ ns :=
  isSome_lookup_zip n (alphabet_length ▸ few)

theorem lookup_ofNames_inj {ns : List String} {n m a : String} (hn : (ofNames ns).lookup n = some a)
    (hm : (ofNames ns).lookup m = some a) : n = m := by
  have place {k : String} (h : (ofNames ns).lookup k = some a) :
      ∃ i : Nat, ns[i]? = some k ∧ alphabet[i]? = some a := by
    obtain ⟨front, back, eq, _⟩ := List.lookup_eq_some_iff.mp h
    have entry : (ns.zip alphabet)[front.length]? = some (k, a) := by
      rw [← ofNames, eq]
      simp
    exact ⟨front.length, List.getElem?_zip_eq_some.mp entry⟩
  obtain ⟨i, name, letter⟩ := place hn
  obtain ⟨j, name', letter'⟩ := place hm
  obtain rfl : i = j := (List.getElem?_inj (List.getElem?_eq_some_iff.mp letter).1
    alphabet_nodup).mp (letter.trans letter'.symm)
  exact Option.some.inj (name.symm.trans name')

theorem length_ofNames {ns : List String} (few : ns.length ≤ 52) :
    (ofNames ns).length = ns.length := by
  rw [ofNames, List.length_zip, alphabet_length, Nat.min_eq_left few]

end Letters

namespace Spec

open Letters

theorem assign_known {ns : List String} {n : String} (few : ns.length ≤ 52) (mem : n ∈ ns) :
    assign (ofNames ns) n = .ok (ofNames ns) := by
  rw [assign, if_pos ((isSome_lookup_ofNames few n).mpr mem)]

theorem assign_new {ns : List String} {n : String} (room : ns.length < 52) (new : n ∉ ns) :
    assign (ofNames ns) n = .ok (ofNames (ns ++ [n])) := by
  have few : ns.length ≤ 52 := by omega
  obtain ⟨a, next⟩ : ∃ a, alphabet[ns.length]? = some a :=
    ⟨_, List.getElem?_eq_getElem (by rw [alphabet_length]; exact room)⟩
  rw [assign, if_neg (mt (isSome_lookup_ofNames few n).mp new), length_ofNames few, letterAt_eq,
    next, ofNames, ofNames, zip_concat next]
  rfl

theorem assign_full {ns : List String} {n : String} (full : ns.length = 52) (new : n ∉ ns) :
    assign (ofNames ns) n = .error (.tooManyAxes n 52) := by
  have few : ns.length ≤ 52 := by omega
  have none : alphabet[ns.length]? = none :=
    List.getElem?_eq_none (by rw [alphabet_length]; omega)
  rw [assign, if_neg (mt (isSome_lookup_ofNames few n).mp new), length_ofNames few, letterAt_eq,
    none, full]
  rfl

/-- The run lemma for letters: from the letters of `ns`, those of all distinct names in order. -/
theorem foldlM_assign {ns : List String} (ms : List String) (distinct : ns.Nodup) (few : ns.length ≤ 52) :
    ms.foldlM assign (ofNames ns) =
      match (ns ++ ms).eraseDups[52]? with
      | some n => .error (.tooManyAxes n 52)
      | none => .ok (ofNames (ns ++ ms).eraseDups) := by
  induction ms generalizing ns with
  | nil =>
    rw [List.append_nil, eraseDups_of_nodup distinct, List.getElem?_eq_none few]
    rfl
  | cons n ms ih =>
    rw [List.foldlM_cons]
    by_cases mem : n ∈ ns
    · rw [assign_known few mem, eraseDups_append_cons mem]
      exact ih distinct few
    · have longer : (ns ++ [n]).Nodup := by
        rw [List.nodup_append]
        exact ⟨distinct, by simp, by
          rintro m hm _ hn rfl
          exact mem (List.mem_singleton.mp hn ▸ hm)⟩
      rw [List.append_cons]
      by_cases full : ns.length = 52
      · have at52 : ((ns ++ [n]) ++ ms).eraseDups[52]? = some n := by
          rw [List.eraseDups_append, eraseDups_of_nodup longer, List.append_assoc,
            List.getElem?_append_right (Nat.le_of_eq full), full]
          rfl
        rw [assign_full full mem, at52]
        rfl
      · have room : ns.length < 52 := by omega
        rw [assign_new room mem]
        exact ih longer (by rw [List.length_append]; exact room)

def outputNames (output : Option Variable) : List String :=
  (output.map Variable.axisNames).getD []

theorem ofVariables_eq (inputs : List Variable) (output : Option Variable) :
    ofVariables inputs output =
      match (inputNames inputs).eraseDups[52]? with
      | some n => .error (.tooManyAxes n 52)
      | none =>
        match (outputNames output).find? fun n => !(inputNames inputs).contains n with
        | some n => .error (.axisNotFound n)
        | none => .ok ⟨withNames inputs, output, ofNames (inputNames inputs).eraseDups⟩ := by
  rw [ofVariables]
  have letters := foldlM_assign (inputNames inputs) List.nodup_nil (by simp)
  rw [List.nil_append] at letters
  change ((inputNames inputs).foldlM assign (ofNames []) >>= _) = _
  rw [letters]
  cases full : (inputNames inputs).eraseDups[52]? with
  | some n => rfl
  | none =>
    have few := List.getElem?_eq_none_iff.mp full
    have same (n : String) : ((ofNames (inputNames inputs).eraseDups).lookup n).isNone =
        !(inputNames inputs).contains n := by
      rw [← Option.not_isSome, Bool.not_inj_iff, Bool.eq_iff_iff, isSome_lookup_ofNames few,
        List.mem_eraseDups, List.contains_iff_mem]
    cases output with
    | none => rfl
    | some v =>
      simp only [bind, Except.bind, checkOutput, same, outputNames, Option.map_some,
        Option.getD_some]
      cases v.axisNames.find? fun n => !(inputNames inputs).contains n <;> rfl

theorem ofVariables_of_known {inputs : List Variable} {output : Option Variable}
    (few : (inputNames inputs).eraseDups.length ≤ 52)
    (known : ∀ n ∈ outputNames output, n ∈ inputNames inputs) :
    ofVariables inputs output =
      .ok ⟨withNames inputs, output, ofNames (inputNames inputs).eraseDups⟩ := by
  have found : (outputNames output).find? (fun n => !(inputNames inputs).contains n) = none := by
    rw [List.find?_eq_none]
    intro n mem
    simpa using known n mem
  rw [ofVariables_eq, List.getElem?_eq_none few, found]

end Spec

end AxisLang
