import AxisLang.Proofs.Subscripts
import Mathlib.Data.Set.Function

/-! The compiled text is a canonical form of an expression up to its axis names.
Letters are given in the order in which names first occur, so they depend only on which names are
equal; and a letter never stands for two names, so the names can be matched through their letters. -/
namespace AxisLang

namespace Axis

def rename (f : String → String) : Axis → Axis
  | .named n => .named (f n)
  | .product ns => .product (ns.map f)
  | .ellipsis => .ellipsis

theorem names_rename (f : String → String) (a : Axis) : (a.rename f).names = a.names.map f := by
  cases a <;> rfl

theorem flattened_rename (f : String → String) (a : Axis) :
    (a.rename f).flattened = a.flattened.map (rename f) := by
  cases a with
  | named n => rfl
  | product ns => simp [rename, flattened, List.map_map, Function.comp_def]
  | ellipsis => rfl

theorem flatMap_names_rename (f : String → String) (axes : List Axis) :
    (axes.map (rename f)).flatMap names = (axes.flatMap names).map f := by
  rw [List.flatMap_map, List.map_flatMap]
  simp only [names_rename]

end Axis

def Subscript.letter? : Subscript → Option String
  | .letter s => some s
  | .rest => none

theorem letters_subscript {L : String → String} {ns : List String} {axes : List Axis}
    (flat : ∀ a ∈ axes, a.IsFlat ns) :
    (axes.map (Axis.subscript L)).filterMap Subscript.letter? = (axes.flatMap Axis.names).map L := by
  induction axes with
  | nil => rfl
  | cons a axes ih =>
    rw [List.forall_mem_cons] at flat
    rw [List.map_cons, List.flatMap_cons, List.map_append, ← ih flat.2]
    cases a with
    | named n => rfl
    | product ns => exact flat.1.elim
    | ellipsis => rfl

theorem rename_of_subscript {L M f : String → String} {ns ms : List String} {axes others : List Axis}
    (matched : ∀ n ∈ ns, ∀ m ∈ ms, L n = M m → f n = m) (flat : ∀ a ∈ axes, a.IsFlat ns)
    (flat' : ∀ a ∈ others, a.IsFlat ms)
    (same : axes.map (Axis.subscript L) = others.map (Axis.subscript M)) :
    others = axes.map (Axis.rename f) := by
  induction axes generalizing others with
  | nil => exact List.map_eq_nil_iff.mp same.symm
  | cons a axes ih =>
    obtain ⟨b, others, rfl, first, rest⟩ := List.map_eq_cons_iff.mp same.symm
    rw [List.forall_mem_cons] at flat flat'
    rw [List.map_cons, ← ih flat.2 flat'.2 rest.symm]
    congr 1
    cases a with
    | product => exact flat.1.elim
    | named n =>
      cases b with
      | named m => exact congrArg Axis.named (matched n flat.1 m flat'.1 (Subscript.letter.inj first).symm).symm
      | product => exact flat'.1.elim
      | ellipsis => cases first
    | ellipsis =>
      cases b with
      | named m => cases first
      | product => exact flat'.1.elim
      | ellipsis => rfl

namespace Spec

/-- The second expression is the first with its axis names changed one to one. Axes are compared with
products spliced, variable by variable; names of variables are not compared. -/
structure RenamedBy (f : String → String) (p q : Spec) : Prop where
  names : Set.BijOn f {n | n ∈ inputNames p.inputs} {n | n ∈ inputNames q.inputs}
  inputs : List.Forall₂ (fun v w => w.flattened = v.flattened.map (Axis.rename f)) p.inputs q.inputs
  output : q.flatOutput = p.flatOutput.map (Axis.rename f)

variable {p q : Spec} {f : String → String}

theorem map_flattened_of_renamed {vs ws : List Variable}
    (h : List.Forall₂ (fun v w => w.flattened = v.flattened.map (Axis.rename f)) vs ws) :
    ws.map Variable.flattened = (vs.map Variable.flattened).map (List.map (Axis.rename f)) := by
  induction h with
  | nil => rfl
  | cons first _ ih => rw [List.map_cons, List.map_cons, List.map_cons, first, ih]

theorem inputNames_of_renamed {vs ws : List Variable}
    (h : List.Forall₂ (fun v w => w.flattened = v.flattened.map (Axis.rename f)) vs ws) :
    inputNames ws = (inputNames vs).map f := by
  rw [← inputNames_flattened, map_flattened_of_renamed h, ← List.map_flatten,
    Axis.flatMap_names_rename, inputNames_flattened]

theorem WellFormed.letterOf_rename (hp : p.WellFormed) (hq : q.WellFormed)
    (renamed : inputNames q.inputs = (inputNames p.inputs).map f)
    (inj : Set.InjOn f {n | n ∈ inputNames p.inputs}) {n : String} (mem : n ∈ inputNames p.inputs) :
    q.letterOf (f n) = p.letterOf n := by
  rw [letterOf, letterOf, hp.letters, hq.letters, renamed,
    eraseDups_map fun n hn m hm same => inj hn hm same, Letters.ofNames, Letters.ofNames,
    lookup_zip_map fun m hm same => inj (List.mem_eraseDups.mp hm) mem same]

theorem subscript_rename {axes : List Axis} {L M : String → String} {ns : List String}
    (flat : ∀ a ∈ axes, a.IsFlat ns) (same : ∀ n ∈ ns, M (f n) = L n) :
    (axes.map (Axis.rename f)).map (Axis.subscript M) = axes.map (Axis.subscript L) := by
  rw [List.map_map]
  apply List.map_congr_left
  intro a mem
  have known := flat a mem
  cases a with
  | named n => exact congrArg Subscript.letter (same n known)
  | product => exact known.elim
  | ellipsis => rfl

theorem RenamedBy.compiled_eq (h : p.RenamedBy f q) (hp : p.WellFormed) (hq : q.WellFormed) :
    p.compiled = q.compiled := by
  have letters : ∀ n ∈ inputNames p.inputs, q.letterOf (f n) = p.letterOf n := fun n mem =>
    hp.letterOf_rename hq (inputNames_of_renamed h.inputs) h.names.injOn mem
  have inputs : q.inputs.map (fun w => w.flattened.map (Axis.subscript q.letterOf)) =
      p.inputs.map fun v => v.flattened.map (Axis.subscript p.letterOf) := by
    have flat := map_flattened_of_renamed h.inputs
    have all := congrArg (List.map (List.map (Axis.subscript q.letterOf))) flat
    rw [List.map_map, List.map_map, List.map_map] at all
    refine all.trans (List.map_congr_left fun v mem => ?_)
    exact subscript_rename (isFlat_input mem) letters
  rw [compiled, compiled, inputs, h.output, subscript_rename hp.isFlat_output letters]

theorem forall₂_of_map_subscript {vs ws : List Variable} {L M : String → String} {ns ms : List String}
    (matched : ∀ n ∈ ns, ∀ m ∈ ms, L n = M m → f n = m)
    (flat : ∀ v ∈ vs, ∀ a ∈ v.flattened, a.IsFlat ns)
    (flat' : ∀ w ∈ ws, ∀ a ∈ w.flattened, a.IsFlat ms)
    (same : vs.map (fun v => v.flattened.map (Axis.subscript L)) =
      ws.map fun w => w.flattened.map (Axis.subscript M)) :
    List.Forall₂ (fun v w => w.flattened = v.flattened.map (Axis.rename f)) vs ws := by
  induction vs generalizing ws with
  | nil =>
    rw [List.map_eq_nil_iff.mp same.symm]
    exact .nil
  | cons v vs ih =>
    obtain ⟨w, ws, rfl, first, rest⟩ := List.map_eq_cons_iff.mp same.symm
    rw [List.forall_mem_cons] at flat flat'
    exact .cons (rename_of_subscript matched flat.1 flat'.1 first.symm)
      (ih flat.2 flat'.2 rest.symm)

theorem letters_compiled (s : Spec) :
    s.compiled.inputs.flatten.filterMap Subscript.letter? = (inputNames s.inputs).map s.letterOf := by
  have flat : ∀ a ∈ (s.inputs.map Variable.flattened).flatten, a.IsFlat (inputNames s.inputs) := by
    intro a mem
    rw [← List.flatMap_def, List.mem_flatMap] at mem
    obtain ⟨v, hv, inside⟩ := mem
    exact isFlat_input hv a inside
  rw [← inputNames_flattened, ← letters_subscript flat, List.map_flatten, List.map_map]
  rfl

theorem exists_renamedBy (hp : p.WellFormed) (hq : q.WellFormed) (same : p.compiled = q.compiled) :
    ∃ f, p.RenamedBy f q := by
  have letters : (inputNames p.inputs).map p.letterOf = (inputNames q.inputs).map q.letterOf := by
    rw [← letters_compiled, same, letters_compiled]
  have found : ∀ n ∈ inputNames p.inputs,
      ∃ m ∈ {m | m ∈ inputNames q.inputs}, q.letterOf m = p.letterOf n := by
    intro n mem
    have letter : p.letterOf n ∈ (inputNames q.inputs).map q.letterOf :=
      letters ▸ List.mem_map_of_mem mem
    exact List.mem_map.mp letter
  let f := fun n => Function.invFunOn q.letterOf {m | m ∈ inputNames q.inputs} (p.letterOf n)
  have letter : ∀ n ∈ inputNames p.inputs, q.letterOf (f n) = p.letterOf n := fun n mem =>
    Function.invFunOn_eq (found n mem)
  have inside : ∀ n ∈ inputNames p.inputs, f n ∈ inputNames q.inputs := fun n mem =>
    Function.invFunOn_mem (found n mem)
  have matched : ∀ n ∈ inputNames p.inputs, ∀ m ∈ inputNames q.inputs,
      p.letterOf n = q.letterOf m → f n = m := by
    intro n hn m hm one
    exact hq.letterOf_inj _ (inside n hn) m hm ((letter n hn).trans one)
  have inputs := forall₂_of_map_subscript matched (fun v => isFlat_input) (fun w => isFlat_input)
    (congrArg Compiled.inputs same)
  refine ⟨f, ⟨inside, ?_, ?_⟩, inputs, ?_⟩
  · intro n hn m hm one
    apply hp.letterOf_inj n hn m hm
    rw [← letter n hn, ← letter m hm, one]
  · intro m hm
    change m ∈ inputNames q.inputs at hm
    rw [inputNames_of_renamed inputs] at hm
    exact List.mem_map.mp hm
  · exact rename_of_subscript matched hp.isFlat_output hq.isFlat_output
      (congrArg Compiled.output same)

theorem compiled_eq_iff (hp : p.WellFormed) (hq : q.WellFormed) :
    p.compiled.text = q.compiled.text ↔ ∃ f, p.RenamedBy f q := by
  constructor
  · intro same
    exact exists_renamedBy hp hq (hp.isStandard.text_inj hq.isStandard same)
  · rintro ⟨f, renamed⟩
    rw [renamed.compiled_eq hp hq]

theorem bijOn_of_renamed (inj : Set.InjOn f {n | n ∈ inputNames p.inputs})
    (inputs : List.Forall₂ (fun v w => w.flattened = v.flattened.map (Axis.rename f))
      p.inputs q.inputs) :
    Set.BijOn f {n | n ∈ inputNames p.inputs} {n | n ∈ inputNames q.inputs} := by
  have names := inputNames_of_renamed inputs
  refine ⟨fun n mem => ?_, inj, fun m mem => ?_⟩
  · change f n ∈ inputNames q.inputs
    rw [names]
    exact List.mem_map_of_mem mem
  · change m ∈ inputNames q.inputs at mem
    rw [names] at mem
    exact List.mem_map.mp mem

end Spec

structure Phrase.RenamedBy (f : String → String) (e e' : Phrase String) : Prop where
  names : Set.InjOn f {n | n ∈ e.inputNames}
  inputs : List.Forall₂ (fun v w => w.axes = v.axes.map (Axis.rename f)) e.inputs e'.inputs
  result : (e'.result.map Variable.axes).getD [] =
    ((e.result.map Variable.axes).getD []).map (Axis.rename f)

theorem flatMap_flattened_rename (f : String → String) (axes : List Axis) :
    (axes.map (Axis.rename f)).flatMap Axis.flattened =
      (axes.flatMap Axis.flattened).map (Axis.rename f) := by
  rw [List.flatMap_map, List.map_flatMap]
  simp only [Axis.flattened_rename]

theorem Spec.flatOutput_eq (s : Spec) : s.flatOutput = s.resultAxes.flatMap Axis.flattened := by
  rw [flatOutput, resultAxes]
  cases s.output <;> rfl

theorem Spec.forall₂_withNames {R : List Axis → List Axis → Prop} {vs ws : List Variable}
    (h : List.Forall₂ (fun v w => R v.axes w.axes) vs ws) :
    List.Forall₂ (fun v w => R v.axes w.axes) (withNames vs) (withNames ws) := by
  have axes : List.Forall₂ R (vs.map Variable.axes) (ws.map Variable.axes) := by
    rwa [List.forall₂_map_left_iff, List.forall₂_map_right_iff]
  rw [← axes_withNames vs, ← axes_withNames ws] at axes
  rwa [List.forall₂_map_left_iff, List.forall₂_map_right_iff] at axes

theorem Phrase.RenamedBy.parse {s t : String} {e e' : Phrase String} {p q : Spec} {f : String → String}
    (h : e.RenamedBy f e') (hs : Expression.Reads s e) (ht : Expression.Reads t e')
    (hp : Spec.parse s = .ok p) (hq : Spec.parse t = .ok q) : p.RenamedBy f q := by
  obtain rfl := hs.parse_eq hp
  obtain rfl := ht.parse_eq hq
  have inputs : List.Forall₂ (fun v w => w.flattened = v.flattened.map (Axis.rename f))
      (Spec.withNames e.inputs) (Spec.withNames e'.inputs) := by
    have axes := Spec.forall₂_withNames (R := fun axes others => others = axes.map (Axis.rename f))
      h.inputs
    refine axes.imp fun v w same => ?_
    rw [Variable.flattened, same, flatMap_flattened_rename]
    rfl
  refine ⟨Spec.bijOn_of_renamed ?_ inputs, inputs, ?_⟩
  · rw [Spec.inputNames_withNames]
    exact h.names
  · rw [Spec.flatOutput_eq, Spec.flatOutput_eq, ← flatMap_flattened_rename]
    exact congrArg (List.flatMap Axis.flattened) h.result

theorem parse_of_translate {s a : String} (h : translate s = .ok a) :
    ∃ p, Spec.parse s = .ok p ∧ a = p.compiled.text := by
  cases parsed : Spec.parse s with
  | error e =>
    rw [translate, parsed] at h
    cases h
  | ok p =>
    rw [Spec.translate_of_parse parsed] at h
    exact ⟨p, rfl, (Except.ok.inj h).symm⟩

/-- The compiled text is a complete canonical form. Two texts that translate have the same translation
exactly if their expressions have as many inputs and one is the other with its axis names changed one
to one. So texts that spell the same axes up to an injective renaming have the same translation,
whatever their layout, letter case and names of variables; and two names never share a letter. -/
theorem translate_canonical {s t a b : String} (hs : translate s = .ok a) (ht : translate t = .ok b) :
    ∃ p q, Spec.parse s = .ok p ∧ Spec.parse t = .ok q ∧
      (a = b ↔ p.inputs.length = q.inputs.length ∧ ∃ f, p.RenamedBy f q) ∧
      (∀ e e' f, Expression.Reads s e → Expression.Reads t e' → e.RenamedBy f e' → a = b) ∧
      ∀ n ∈ Spec.inputNames p.inputs, ∀ m ∈ Spec.inputNames p.inputs,
        p.letters.lookup n = p.letters.lookup m → n = m := by
  obtain ⟨p, hp, rfl⟩ := parse_of_translate hs
  obtain ⟨q, hq, rfl⟩ := parse_of_translate ht
  have wp := Spec.wellFormed_of_parse hp
  have wq := Spec.wellFormed_of_parse hq
  refine ⟨p, q, hp, hq, ⟨fun same => ?_, fun h => ?_⟩, fun e e' f reads reads' renamed => ?_, ?_⟩
  · obtain ⟨f, renamed⟩ := (Spec.compiled_eq_iff wp wq).mp same
    exact ⟨renamed.inputs.length_eq, f, renamed⟩
  · exact (Spec.compiled_eq_iff wp wq).mpr h.2
  · exact (Spec.compiled_eq_iff wp wq).mpr ⟨f, renamed.parse reads reads' hp hq⟩
  · intro n hn m hm same
    apply wp.letterOf_inj n hn m hm
    rw [Spec.letterOf, Spec.letterOf, same]

theorem translate_canonical_respelled :
    translate "[i*k],[k]->[i]" = .ok "AB,B->A" ∧ translate "a[X,b],[B]->x[x]//" = .ok "AB,B->A" ∧
      ∃ p q, Spec.parse "[i*k],[k]->[i]" = .ok p ∧ Spec.parse "a[X,b],[B]->x[x]//" = .ok q ∧
        ∃ f, p.RenamedBy f q := by
  have both : (translate "[i*k],[k]->[i]").toOption = some "AB,B->A" ∧
      (translate "a[X,b],[B]->x[x]//").toOption = some "AB,B->A" := by decide +kernel
  have first := ok_of_toOption both.1
  have second := ok_of_toOption both.2
  obtain ⟨p, q, hp, hq, iff, _⟩ := translate_canonical first second
  exact ⟨first, second, p, q, hp, hq, (iff.mp rfl).2⟩

end AxisLang
