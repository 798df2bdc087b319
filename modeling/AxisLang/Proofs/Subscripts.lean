import AxisLang.Proofs.Einsum

/-! The subscripts of an expression and the text that they are written as.
Every expression that parses is compiled, ellipses included: its axes with products spliced become
letters and dots, one for one. Letters are single characters other than dots, commas and hyphens, so
the text tells the subscripts of every term. -/
namespace AxisLang

namespace Axis

def subscript (letter : String → String) : Axis → Subscript
  | .named n => .letter (letter n)
  | _ => .rest

def IsFlat (names : List String) : Axis → Prop
  | .named n => n ∈ names
  | .product _ => False
  | .ellipsis => True

theorem isFlat_flattened {names : List String} {a : Axis} (known : ∀ n ∈ a.names, n ∈ names) :
    ∀ b ∈ a.flattened, b.IsFlat names := by
  cases a with
  | named n => simpa [flattened, IsFlat, Axis.names] using known
  | product ns => simpa [flattened, IsFlat, Axis.names] using known
  | ellipsis => simp [flattened, IsFlat]

end Axis

namespace Variable

theorem isFlat_flattened {names : List String} {v : Variable} (known : ∀ n ∈ v.axisNames, n ∈ names) :
    ∀ b ∈ v.flattened, b.IsFlat names := by
  intro b mem
  obtain ⟨a, inside, mem⟩ := List.mem_flatMap.mp mem
  exact Axis.isFlat_flattened (fun n name => known n (List.mem_flatMap.mpr ⟨a, inside, name⟩)) b mem

theorem names_flattened (v : Variable) : v.flattened.flatMap Axis.names = v.axisNames := by
  rw [flattened, List.flatMap_assoc, axisNames]
  simp only [Axis.names_flatMap_flattened]

end Variable

namespace Spec

def flatOutput (s : Spec) : List Axis :=
  (s.output.map Variable.flattened).getD []

theorem names_flatOutput (s : Spec) : s.flatOutput.flatMap Axis.names = outputNames s.output := by
  rw [flatOutput, outputNames]
  cases s.output with
  | none => rfl
  | some v => exact v.names_flattened

theorem inputNames_flattened (vs : List Variable) :
    (vs.map Variable.flattened).flatten.flatMap Axis.names = inputNames vs := by
  rw [← List.flatMap_def, List.flatMap_assoc, inputNames]
  simp only [Variable.names_flattened]

theorem isFlat_input {s : Spec} {v : Variable} (mem : v ∈ s.inputs) :
    ∀ a ∈ v.flattened, a.IsFlat (inputNames s.inputs) :=
  Variable.isFlat_flattened fun _ name => List.mem_flatMap.mpr ⟨v, mem, name⟩

theorem WellFormed.isFlat_output {s : Spec} (h : s.WellFormed) :
    ∀ a ∈ s.flatOutput, a.IsFlat (inputNames s.inputs) := by
  rw [flatOutput]
  cases out : s.output with
  | none => simp
  | some v => exact Variable.isFlat_flattened fun n name => h.known n (by rwa [out])

/-- The compiled form: a letter for each axis name, dots for an ellipsis. -/
def compiled (s : Spec) : Compiled :=
  ⟨s.inputs.map fun v => v.flattened.map (Axis.subscript s.letterOf),
    s.flatOutput.map (Axis.subscript s.letterOf)⟩

theorem WellFormed.subscripts_flattened {s : Spec} (h : s.WellFormed) {v : Variable}
    (known : ∀ n ∈ v.axisNames, n ∈ inputNames s.inputs) :
    v.subscripts s.letters = .ok (v.flattened.map (Axis.subscript s.letterOf)) := by
  have each : ∀ a ∈ v.axes, a.subscripts s.letters =
      .ok (a.flattened.map (Axis.subscript s.letterOf)) := by
    intro a mem
    have names := fun n name => known n (List.mem_flatMap.mpr ⟨a, mem, name⟩)
    cases a with
    | ellipsis => rfl
    | named n => exact h.subscripts_axis rfl names
    | product ns =>
      rw [h.subscripts_axis rfl names, Axis.flattened, List.map_map]
      rfl
  rw [Variable.subscripts, mapM_ok each, Variable.flattened, List.map_flatMap]
  rfl

theorem WellFormed.compile_eq {s : Spec} (h : s.WellFormed) : s.compile = .ok s.compiled := by
  have inputs := mapM_ok fun v mem => h.subscripts_flattened fun n name =>
    List.mem_flatMap.mpr ⟨v, mem, name⟩
  rw [compile, inputs, compiled, flatOutput]
  cases out : s.output with
  | none => rfl
  | some v =>
    have output := h.subscripts_flattened (v := v) fun n name => h.known n (by rwa [out])
    simp only [bind, Except.bind, output]
    rfl

theorem translate_of_parse {text : String} {s : Spec} (parsed : parse text = .ok s) :
    translate text = .ok s.compiled.text := by
  rw [translate, parsed]
  simp only [bind, Except.bind, (wellFormed_of_parse parsed).compile_eq]
  rfl

theorem WellFormed.letterOf_mem {s : Spec} (h : s.WellFormed) {n : String}
    (mem : n ∈ inputNames s.inputs) : s.letterOf n ∈ alphabet := by
  have found := h.lookup mem
  rw [h.letters] at found
  obtain ⟨front, back, eq, _⟩ := List.lookup_eq_some_iff.mp found
  have entry : (n, s.letterOf n) ∈ Letters.ofNames (inputNames s.inputs).eraseDups := by
    rw [eq]
    simp
  exact (List.of_mem_zip entry).2

end Spec

namespace Subscript

def IsStandard : Subscript → Prop
  | .letter s => s ∈ alphabet
  | .rest => True

theorem chars_letter {s : String} (h : s ∈ alphabet) : ∃ c ∈ axisLetters, s.toList = [c] := by
  obtain ⟨c, mem, rfl⟩ := List.mem_map.mp h
  exact ⟨c, mem, by simp⟩

theorem text_ne_nil {x : Subscript} (h : x.IsStandard) : x.text.toList ≠ [] := by
  cases x with
  | letter s =>
    obtain ⟨c, _, chars⟩ := chars_letter h
    simp [text, chars]
  | rest => simp [text]

theorem separator_notMem {x : Subscript} (h : x.IsStandard) {c : Char} (sep : c = ',' ∨ c = '-') :
    c ∉ x.text.toList := by
  have apart : c ∉ axisLetters ∧ c ≠ '.' := by
    rcases sep with rfl | rfl <;> decide +kernel
  cases x with
  | letter s =>
    obtain ⟨d, mem, chars⟩ := chars_letter h
    rw [text, chars, List.mem_singleton]
    rintro rfl
    exact apart.1 mem
  | rest => simpa [text] using apart.2

theorem text_append_inj {x y : Subscript} {u w : List Char} (hx : x.IsStandard) (hy : y.IsStandard)
    (same : x.text.toList ++ u = y.text.toList ++ w) : x = y ∧ u = w := by
  have first (c : Char) (h : c ∈ axisLetters) : c ≠ '.' := by
    rintro rfl
    exact absurd h (by decide +kernel)
  cases x with
  | letter s =>
    obtain ⟨c, mem, own⟩ := chars_letter hx
    cases y with
    | letter t =>
      obtain ⟨d, _, own'⟩ := chars_letter hy
      obtain ⟨chars, rest⟩ := List.append_inj same (by simp [text, own, own'])
      exact ⟨congrArg letter (String.toList_inj.mp chars), rest⟩
    | rest =>
      rw [text, own] at same
      exact absurd (List.cons.inj same).1 (first c mem)
  | rest =>
    cases y with
    | letter t =>
      obtain ⟨d, mem, own⟩ := chars_letter hy
      rw [text, text, own] at same
      exact absurd (List.cons.inj same).1.symm (first d mem)
    | rest => exact ⟨rfl, (List.append_inj same rfl).2⟩

end Subscript

theorem toList_subscriptText (xs : List Subscript) :
    (subscriptText xs).toList = xs.flatMap fun x => x.text.toList := by
  rw [subscriptText, String.toList_join, List.flatMap_map]

theorem separator_notMem_subscriptText {xs : List Subscript} (h : ∀ x ∈ xs, x.IsStandard) {c : Char}
    (sep : c = ',' ∨ c = '-') : c ∉ (subscriptText xs).toList := by
  rw [toList_subscriptText, List.mem_flatMap]
  rintro ⟨x, mem, inside⟩
  exact Subscript.separator_notMem (h x mem) sep inside

theorem subscriptText_inj {xs ys : List Subscript} (hx : ∀ x ∈ xs, x.IsStandard)
    (hy : ∀ y ∈ ys, y.IsStandard) (same : (subscriptText xs).toList = (subscriptText ys).toList) :
    xs = ys := by
  rw [toList_subscriptText, toList_subscriptText] at same
  induction xs generalizing ys with
  | nil =>
    cases ys with
    | nil => rfl
    | cons y ys =>
      have empty := (List.append_eq_nil_iff.mp same.symm).1
      exact absurd empty (Subscript.text_ne_nil (hy y (List.mem_cons_self ..)))
  | cons x xs ih =>
    rw [List.forall_mem_cons] at hx
    cases ys with
    | nil =>
      have empty := (List.append_eq_nil_iff.mp same).1
      exact absurd empty (Subscript.text_ne_nil hx.1)
    | cons y ys =>
      rw [List.forall_mem_cons] at hy
      obtain ⟨rfl, rest⟩ := Subscript.text_append_inj hx.1 hy.1 same
      rw [ih hx.2 hy.2 rest]

namespace Compiled

structure IsStandard (c : Compiled) : Prop where
  nonempty : c.inputs ≠ []
  inputs : ∀ xs ∈ c.inputs, ∀ x ∈ xs, x.IsStandard
  output : ∀ x ∈ c.output, x.IsStandard

def termTexts (c : Compiled) : List (List Char) :=
  c.inputs.map fun xs => (subscriptText xs).toList

theorem IsStandard.separator_notMem {c : Compiled} (h : c.IsStandard) {d : Char}
    (sep : d = ',' ∨ d = '-') : ∀ u ∈ c.termTexts, d ∉ u := by
  intro u mem
  obtain ⟨xs, inside, rfl⟩ := List.mem_map.mp mem
  exact separator_notMem_subscriptText (h.inputs xs inside) sep

theorem IsStandard.splitOn_text {c : Compiled} (h : c.IsStandard) :
    c.text.toList.splitOn '-' =
      [[','].intercalate c.termTexts, '>' :: (subscriptText c.output).toList] := by
  have chars : c.text.toList = ['-'].intercalate
      [[','].intercalate c.termTexts, '>' :: (subscriptText c.output).toList] := by
    simp [text, termTexts, String.toList_intercalate, List.map_map, Function.comp_def,
      List.intercalate]
  rw [chars]
  refine List.splitOn_intercalate _ ?_ (by simp)
  rw [List.forall_mem_cons, List.forall_mem_singleton]
  constructor
  · exact notMem_intercalate (by decide) (h.separator_notMem (.inr rfl))
  · rw [List.mem_cons, not_or]
    exact ⟨by decide, separator_notMem_subscriptText h.output (.inr rfl)⟩

theorem IsStandard.text_inj {c d : Compiled} (hc : c.IsStandard) (hd : d.IsStandard)
    (same : c.text = d.text) : c = d := by
  have parts := hc.splitOn_text
  rw [same, hd.splitOn_text, List.cons.injEq, List.cons.injEq] at parts
  obtain ⟨inputs, output, _⟩ := parts
  have terms : d.termTexts = c.termTexts := by
    have split := congrArg (List.splitOn ',') inputs
    rwa [List.splitOn_intercalate _ (hd.separator_notMem (.inl rfl)) (by simp [termTexts, hd.nonempty]),
      List.splitOn_intercalate _ (hc.separator_notMem (.inl rfl)) (by simp [termTexts, hc.nonempty])]
      at split
  obtain ⟨cin, cout⟩ := c
  obtain ⟨din, dout⟩ := d
  have outs : cout = dout :=
    subscriptText_inj hc.output hd.output (List.cons.inj output).2.symm
  have ins : cin = din := by
    refine List.ext_getElem (by simpa [termTexts] using (congrArg List.length terms).symm) ?_
    intro i hi hj
    refine subscriptText_inj (hc.inputs _ (List.getElem_mem hi)) (hd.inputs _ (List.getElem_mem hj)) ?_
    have item := congrArg (fun l => l[i]?) terms
    simpa [termTexts, List.getElem?_eq_getElem hi, List.getElem?_eq_getElem hj] using item.symm
  rw [ins, outs]

end Compiled

theorem Spec.WellFormed.isStandard {s : Spec} (h : s.WellFormed) : s.compiled.IsStandard := by
  have each (axes : List Axis) (flat : ∀ a ∈ axes, a.IsFlat (inputNames s.inputs)) :
      ∀ x ∈ axes.map (Axis.subscript s.letterOf), x.IsStandard := by
    intro x mem
    obtain ⟨a, inside, rfl⟩ := List.mem_map.mp mem
    have known := flat a inside
    cases a with
    | named n => exact h.letterOf_mem known
    | product ns => exact known.elim
    | ellipsis => trivial
  refine ⟨by simpa [compiled] using h.nonempty, ?_, each _ h.isFlat_output⟩
  intro xs mem
  obtain ⟨v, hv, rfl⟩ := List.mem_map.mp mem
  exact each _ (isFlat_input hv)

end AxisLang
