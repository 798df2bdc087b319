import AxisLang.Proofs.Alignment

/-! When passing the check suffices for the contraction.
It does if every ellipsis stands in the middle of its variable and only one variable has one. Without
these conditions there are arrays that pass and cannot be contracted. They are tried here: arrays with
a given number of spare dimensions for each variable, and a size for each name. An ellipsis that is not
in the middle swallows axes when there are no spare dimensions. Two ellipses of different length are
compared from the left by the check and from the right by the contraction. -/
namespace AxisLang

namespace Shape

variable {σ τ : String → Nat} {v : Variable} {z : Variable × Nat} {front mid back : List Axis}

def before (v : Variable) : List Axis :=
  match v.axes.findIdx? Axis.isEllipsis with
  | none => v.axes
  | some e => v.axes.take e

def after (v : Variable) : List Axis :=
  match v.axes.findIdx? Axis.isEllipsis with
  | none => []
  | some e => v.axes.drop (v.axes.length - e)

theorem before_plain (solid : ∀ a ∈ v.axes, a.isEllipsis = false) : before v = v.axes := by
  rw [before, List.findIdx?_eq_none_iff.mpr solid]

theorem after_plain (solid : ∀ a ∈ v.axes, a.isEllipsis = false) : after v = [] := by
  rw [after, List.findIdx?_eq_none_iff.mpr solid]

theorem before_dots (axes : v.axes = front ++ ((.ellipsis :: mid) ++ back))
    (solid : ∀ a ∈ front ++ (mid ++ back), a.isEllipsis = false) : before v = front := by
  rw [before, findIdx?_dots axes solid, axes]
  exact List.take_left

theorem after_dots (axes : v.axes = front ++ ((.ellipsis :: mid) ++ back))
    (even : back.length = front.length)
    (solid : ∀ a ∈ front ++ (mid ++ back), a.isEllipsis = false) : after v = back := by
  rw [after, findIdx?_dots axes solid, axes, ← List.append_assoc]
  dsimp only
  rw [List.length_append, even, Nat.add_sub_cancel]
  exact List.drop_left

/-- The axes of a variable whose ellipsis stands for a given number of dimensions, without those that
are replaced with it. -/
def trialAxes (z : Variable × Nat) : List Axis :=
  before z.1 ++ (spareAxes z.2 ++ after z.1)

def trial (σ : String → Nat) (z : Variable × Nat) : Variable × Shape :=
  (z.1, (trialAxes z).map (Axis.size σ))

/-- There are spare dimensions only for an ellipsis in the middle. -/
def Fits (z : Variable × Nat) : Prop :=
  z.2 = 0 ∨ z.1.Centred ∧ .ellipsis ∈ z.1.axes

theorem Fits.eq_zero (fits : Fits z) (solid : ∀ a ∈ z.1.axes, a.isEllipsis = false) : z.2 = 0 := by
  rcases fits with none | ⟨_, dots⟩
  · exact none
  · exact absurd (solid _ dots) (by decide)

theorem spares_trial (axes : z.1.axes = front ++ ((.ellipsis :: mid) ++ back))
    (even : back.length = front.length) (solid : ∀ a ∈ front ++ (mid ++ back), a.isEllipsis = false) :
    (trial σ z).2.length + 1 - z.1.axes.length = z.2 - mid.length := by
  have length : (trial σ z).2.length = front.length + (z.2 + front.length) := by
    simp [trial, trialAxes, before_dots axes solid, after_dots axes even solid, spareAxes, even]
  have total : z.1.axes.length = front.length + (mid.length + 1 + front.length) := by
    simp [axes, even]
    omega
  omega

theorem material_trial (early : Early z.1) (fits : Fits z) :
    material z.1 (trial σ z).2 = trialAxes z := by
  cases early with
  | plain solid =>
    rw [material_plain _ solid, trialAxes, before_plain solid, after_plain solid, fits.eq_zero solid]
    simp [spareAxes]
  | dots front mid back axes even solid =>
    have gaps : ((Axis.ellipsis :: mid).flatMap
        fun _ => spareAxes ((trial σ z).2.length + 1 - z.1.axes.length)) = spareAxes z.2 := by
      rw [spares_trial axes even solid]
      rcases fits with none | ⟨centred, _⟩
      · simp [none, spareAxes]
      · simp [centred.mid_eq_nil axes even solid]
    rw [material_dots _ axes even solid, gaps, trialAxes, before_dots axes solid,
      after_dots axes even solid]

theorem mem_trialAxes_of_mem_material {a : Axis} (shape : Shape) {spares : Nat} (early : Early v)
    (mem : a ∈ material v shape) (own : ∀ j, a ≠ spareAxis j) : a ∈ trialAxes (v, spares) := by
  cases early with
  | plain solid =>
    rw [material_plain shape solid] at mem
    rw [trialAxes, before_plain solid]
    exact List.mem_append_left _ mem
  | dots front mid back axes even solid =>
    rw [material_dots shape axes even solid, List.mem_append, List.mem_append, List.mem_flatMap] at mem
    rw [trialAxes, before_dots axes solid, after_dots axes even solid, List.mem_append, List.mem_append]
    rcases mem with mem | ⟨_, _, mem⟩ | mem
    · exact .inl mem
    · obtain ⟨j, _, rfl⟩ := List.mem_map.mp mem
      exact absurd rfl (own j)
    · exact .inr (.inr mem)

theorem mem_material_of_mem_trialAxes {a : Axis} (shape : Shape) {spares : Nat} (early : Early v)
    (mem : a ∈ trialAxes (v, spares)) : a ∈ spareAxes spares ∨ a ∈ v.axes ∧ a ∈ material v shape := by
  cases early with
  | plain solid =>
    rw [trialAxes, before_plain solid, after_plain solid, List.append_nil, List.mem_append] at mem
    rw [material_plain shape solid]
    rcases mem with mem | mem
    · exact .inr ⟨mem, mem⟩
    · exact .inl mem
  | dots front mid back axes even solid =>
    rw [trialAxes, before_dots axes solid, after_dots axes even solid, List.mem_append,
      List.mem_append] at mem
    rw [material_dots shape axes even solid, axes]
    rcases mem with mem | mem | mem
    · exact .inr ⟨by simp [mem], by simp [mem]⟩
    · exact .inl mem
    · exact .inr ⟨by simp [mem], by simp [mem]⟩

theorem accepts_of_sized {xs : List (Variable × Shape)}
    (single : ∀ x ∈ xs, x.1.axes.countP Axis.isEllipsis ≤ 1)
    (solid : ∀ x ∈ xs, ∀ a ∈ material x.1 x.2, a.isEllipsis = false)
    (sized : ∀ x ∈ xs, x.2 = (material x.1 x.2).map (Axis.size σ))
    (known : ∀ x ∈ xs, ∀ n ∈ dimNames x, n ∈ plainNames (scanOf xs)) : Accepts σ xs := by
  have scanned : ∀ a k, (a, k) ∈ scanOf xs → a.isEllipsis = false ∧ k = a.size σ := by
    intro a k mem
    obtain ⟨x, hx, dim⟩ := List.mem_flatMap.mp mem
    refine ⟨solid x hx a (List.of_mem_zip dim).1, ?_⟩
    have shape := sized x hx
    generalize material x.1 x.2 = axes at shape dim
    rw [shape, zip_map_size] at dim
    obtain ⟨b, _, same⟩ := List.mem_map.mp dim
    obtain ⟨rfl, rfl⟩ := Prod.mk.inj same
    rfl
  refine ⟨fun x mem => ⟨single x mem, fun none => ?_, ?_⟩, ⟨?_, ?_, ?_⟩, known, fun x mem => ?_⟩
  · rw [sized x mem, List.length_map, material_plain _ (List.findIdx?_eq_none_iff.mp none)]
  · exact (congrArg List.length (sized x mem)).trans (List.length_map ..) |>.ge
  · exact fun d mem => (scanned d.1 d.2 mem).1
  · exact fun n k mem => (scanned (.named n) k mem).2
  · rintro front ns k back eq _
    exact (scanned (.product ns) k (by simp [eq])).2
  · conv_rhs => rw [sized x mem, volume_map_size]
    rfl

theorem accepts_trial {xs : List (Variable × Shape)} {zs : List (Variable × Nat)} (h : Accepts τ xs)
    (same : zs.map Prod.fst = xs.map Prod.fst)
    (spelled : ∀ x ∈ xs, ∀ a ∈ x.1.axes, a.IsSpelled) (fits : ∀ z ∈ zs, Fits z) :
    Accepts σ (zs.map (trial σ)) := by
  have source {z : Variable × Nat} (mem : z ∈ zs) : ∃ x ∈ xs, x.1 = z.1 := by
    have first : z.1 ∈ xs.map Prod.fst := same ▸ List.mem_map_of_mem mem
    exact List.mem_map.mp first
  have early {z : Variable × Nat} (mem : z ∈ zs) : Early z.1 := by
    obtain ⟨x, hx, eq⟩ := source mem
    exact eq ▸ h.early hx
  have laid {z : Variable × Nat} (mem : z ∈ zs) : material (trial σ z).1 (trial σ z).2 = trialAxes z :=
    material_trial (early mem) (fits z mem)
  have scanned {z : Variable × Nat} {a : Axis} (mem : z ∈ zs) (axis : a ∈ trialAxes z) :
      (a, a.size σ) ∈ scanOf (zs.map (trial σ)) := by
    refine List.mem_flatMap.mpr ⟨_, List.mem_map_of_mem mem, ?_⟩
    rw [laid mem, trial, zip_map_size]
    exact List.mem_map_of_mem axis
  refine accepts_of_sized ?_ ?_ ?_ ?_
  · intro t mem
    obtain ⟨z, hz, rfl⟩ := List.mem_map.mp mem
    obtain ⟨x, hx, eq⟩ := source hz
    exact eq ▸ (h.admits x hx).single
  · intro t mem a axis
    obtain ⟨z, hz, rfl⟩ := List.mem_map.mp mem
    obtain ⟨x, hx, eq⟩ := source hz
    rw [laid hz] at axis
    rcases mem_material_of_mem_trialAxes x.2 (early hz) axis with spare | ⟨_, kept⟩
    · exact solid_spareAxes _ a spare
    · exact h.solid hx a (eq ▸ kept)
  · intro t mem
    obtain ⟨z, hz, rfl⟩ := List.mem_map.mp mem
    rw [laid hz]
    rfl
  · intro t mem n name
    obtain ⟨z, hz, rfl⟩ := List.mem_map.mp mem
    obtain ⟨x, hx, eq⟩ := source hz
    rw [dimNames, laid hz] at name
    obtain ⟨a, axis, own⟩ := List.mem_flatMap.mp name
    rw [mem_plainNames]
    rcases mem_material_of_mem_trialAxes x.2 (early hz) axis with spare | ⟨written, kept⟩
    · obtain ⟨j, _, rfl⟩ := List.mem_map.mp spare
      obtain rfl := List.mem_singleton.mp own
      exact ⟨_, scanned hz axis⟩
    · have known := h.known x hx n (List.mem_flatMap.mpr ⟨a, eq ▸ kept, own⟩)
      obtain ⟨k, entry⟩ := mem_plainNames.mp known
      obtain ⟨y, hy, dim⟩ := List.mem_flatMap.mp entry
      have fresh := (spelled x hx a (eq ▸ written)).fresh n own
      have first : y.1 ∈ zs.map Prod.fst := same ▸ List.mem_map_of_mem hy
      obtain ⟨w, hw, eq⟩ := List.mem_map.mp first
      refine ⟨_, scanned hw (mem_trialAxes_of_mem_material y.2 (early hw) ?_ fun j => (fresh j).symm)⟩
      exact eq ▸ (List.of_mem_zip dim).1

theorem spareDims_trial (early : Early z.1) (fits : Fits z) :
    spareDims z.1 (trial σ z).2 = (spareAxes z.2).map (Axis.size σ) := by
  cases early with
  | plain solid =>
    rw [spareDims, List.findIdx?_eq_none_iff.mpr solid, fits.eq_zero solid]
    rfl
  | dots front mid back axes even solid =>
    have shape : (trial σ z).2 = front.map (Axis.size σ) ++
        ((spareAxes z.2).map (Axis.size σ) ++ back.map (Axis.size σ)) := by
      simp [trial, trialAxes, before_dots axes solid, after_dots axes even solid]
    have dims : (trial σ z).2.drop front.length =
        (spareAxes z.2).map (Axis.size σ) ++ back.map (Axis.size σ) := by
      rw [shape]
      exact List.drop_left' (List.length_map ..)
    rw [spareDims, findIdx?_dots axes solid]
    dsimp only
    rw [dims, spares_trial axes even solid]
    rcases fits with none | ⟨centred, _⟩
    · simp [none, spareAxes]
    · rw [centred.mid_eq_nil axes even solid]
      exact List.take_left' (by simp [spareAxes])

end Shape

namespace Spec

open Contraction Shape

variable {σ τ : String → Nat} {s : Spec} {v : Variable} {ts : List Tensor} {zs : List (Variable × Nat)}

def trials (σ : String → Nat) (zs : List (Variable × Nat)) : List Tensor :=
  samples (zs.map (trial σ))

theorem map_fst_trial (inputs : zs.map Prod.fst = s.inputs) :
    (zs.map (trial σ)).map Prod.fst = s.inputs := by
  rw [List.map_map, ← inputs]
  rfl

theorem paired_trials (inputs : zs.map Prod.fst = s.inputs) : s.paired (trials σ zs) = zs.map (trial σ) :=
  paired_samples (map_fst_trial inputs)

/-- Arrays that pass, of which there are as many as inputs. -/
def Passes (s : Spec) (ts us : List Tensor) : Prop :=
  ts.length = s.inputs.length ∧ s.shapeCheck ts = .ok us

theorem passes_trial (h : Accepts τ (s.paired ts)) (count : ts.length = s.inputs.length)
    (inputs : zs.map Prod.fst = s.inputs) (spelled : ∀ v ∈ s.inputs, ∀ a ∈ v.axes, a.IsSpelled)
    (fits : ∀ z ∈ zs, Fits z) :
    s.Passes (trials σ zs) (s.splitBy σ (trials σ zs)) ∧
      Accepts σ (s.paired (trials σ zs)) ∧
      ∀ t ∈ trials σ zs, t.data.size = volume t.shape := by
  have accepts : Accepts σ (s.paired (trials σ zs)) := by
    rw [paired_trials inputs]
    refine accepts_trial h (inputs.trans (map_fst_paired count).symm) ?_ fits
    exact fun x mem => spelled x.1 (List.of_mem_zip mem).1
  exact ⟨⟨length_samples (map_fst_trial inputs), shapeCheck_eq_ok.mpr ⟨σ, accepts, rfl⟩⟩, accepts,
    size_samples⟩

theorem not_contracts_of_swallowed (inputs : zs.map Prod.fst = s.inputs)
    (spelled : ∀ v ∈ s.inputs, ∀ a ∈ v.axes, a.IsSpelled) {v : Variable} (mem : (v, 0) ∈ zs)
    (early : Early v) (off : ¬ v.Centred) :
    ¬ Contracts (s.compiled.inputs.zip (s.splitBy σ (trials σ zs))) s.compiled.output := by
  intro contracts
  have input : v ∈ s.inputs := inputs ▸ List.mem_map_of_mem mem
  have fits : Fits (v, 0) := .inl rfl
  have term := contracts.terms (s.termOf σ (v, Tensor.counting (trial σ (v, 0)).2 1)) (by
    rw [zip_splitBy, trials, zip_samples (map_fst_trial inputs), List.map_map, List.map_map]
    exact List.mem_map_of_mem (f := (s.termOf σ ∘ _) ∘ trial σ) mem)
  have letters := letters_le_of_sparesOf? term
  rw [termOf, List.length_map, restCount_subscript (isFlat_input input), Variable.flattened,
    Axis.length_flatMap_flattened, Axis.countP_flattened, Nat.add_sub_cancel, Tensor.rank,
    List.length_map, dimNames] at letters
  change _ ≤ ((material (v, 0).1 (trial σ (v, 0)).2).flatMap Axis.names).length at letters
  rw [material_trial early fits, trialAxes] at letters
  cases early with
  | plain solid =>
    exact off fun e place => by
      rw [List.findIdx?_eq_none_iff.mpr solid] at place
      cases place
  | dots front mid back axes even solid =>
    -- what stands between the ellipsis and the axes that mirror its front has letters, but no dimensions
    have swallowed : (mid.flatMap Axis.names).length ≠ 0 := by
      obtain ⟨a, rest, rfl⟩ : ∃ a rest, mid = a :: rest := by
        refine List.exists_cons_of_ne_nil fun none => off fun e place => ?_
        subst none
        rw [findIdx?_dots axes solid] at place
        obtain rfl := Option.some.inj place
        simp [axes, even]
        omega
      have names := (spelled v input a (by simp [axes])).names (solid a (by simp))
      simp [names]
    rw [before_dots axes solid, after_dots axes even solid, axes] at letters
    simp only [List.flatMap_append, List.flatMap_cons, List.length_append, Axis.names, spareAxes,
      List.range_zero, List.map_nil, List.flatMap_nil, List.length_nil] at letters
    omega

def bare (v : Variable) : Variable × Nat :=
  (v, 0)

theorem map_fst_bare (vs : List Variable) : (vs.map bare).map Prod.fst = vs := by
  simp [bare, Function.comp_def]

theorem fits_bare {vs : List Variable} {z : Variable × Nat} (mem : z ∈ vs.map bare) : Fits z := by
  obtain ⟨v, _, rfl⟩ := List.mem_map.mp mem
  exact .inl rfl

/-- Two for the first dimension of an ellipsis, three for the second. -/
def skewed (n : String) : Nat :=
  if .named n = spareAxis 0 then 2 else if .named n = spareAxis 1 then 3 else 1

theorem not_aligned_of_skewed (early : ∀ z ∈ zs, Early z.1) (fits : ∀ z ∈ zs, Fits z) {v w : Variable}
    (one : (v, 1) ∈ zs) (two : (w, 2) ∈ zs) : ¬ Aligned (zs.map (trial skewed)) := by
  intro aligned
  have sizes : (spareAxes 1).map (Axis.size skewed) = [2] ∧ (spareAxes 2).map (Axis.size skewed) = [2, 3] := by
    decide
  have first : spareDims v (trial skewed (v, 1)).2 = [2] :=
    (spareDims_trial (early _ one) (fits _ one)).trans sizes.1
  have second : spareDims w (trial skewed (w, 2)).2 = [2, 3] :=
    (spareDims_trial (early _ two) (fits _ two)).trans sizes.2
  have clash := aligned _ (List.mem_map_of_mem one) _ (List.mem_map_of_mem two) 0 2 3
    (congrArg (fun dims : Shape => dims.reverse[0]?) first)
    (congrArg (fun dims : Shape => dims.reverse[0]?) second)
  omega

theorem aligned_of_countP_le_one {xs : List (Variable × Shape)}
    (one : (xs.map Prod.fst).countP (fun v => v.axes.any Axis.isEllipsis) ≤ 1) : Aligned xs := by
  intro x hx y hy k n m hn hm
  have dots {x : Variable × Shape} {n : Nat} (size : (spareDims x.1 x.2).reverse[k]? = some n) :
      x.1.axes.any Axis.isEllipsis = true := by
    by_contra plain
    rw [spareDims_of_plain fun mem => plain (List.any_eq_true.mpr ⟨_, mem, rfl⟩)] at size
    cases size
  rw [List.countP_map] at one
  have same : x = y := eq_of_countP_le_one one hx hy (dots hn) (dots hm)
  subst same
  exact .inl (Option.some.inj (hn.symm.trans hm))

theorem WellFormed.exists_evaluateFast_iff (h : s.WellFormed) (count : ts.length = s.inputs.length) :
    (∃ t, s.evaluateFast (s.splitBy σ ts) = .ok t) ↔
      Contracts (s.compiled.inputs.zip (s.splitBy σ ts)) s.compiled.output := by
  simp only [h.evaluateFast_eq_ok]
  refine exists_contract?_iff ?_
  rw [length_splitBy count]
  exact List.length_map ..

/-- All arrays that pass can be contracted. -/
def CheckSuffices (s : Spec) : Prop :=
  ∀ ts us, (∀ t ∈ ts, t.data.size = volume t.shape) → s.Passes ts us → ∃ t, s.evaluateFast us = .ok t

theorem CheckSuffices.contracts (h : s.CheckSuffices) (formed : s.WellFormed)
    (accepts : Accepts τ (s.paired ts)) (count : ts.length = s.inputs.length)
    (spelled : ∀ v ∈ s.inputs, ∀ a ∈ v.axes, a.IsSpelled) (σ : String → Nat)
    (inputs : zs.map Prod.fst = s.inputs) (fits : ∀ z ∈ zs, Fits z) :
    Accepts σ (s.paired (trials σ zs)) ∧ (trials σ zs).length = s.inputs.length ∧
      Contracts (s.compiled.inputs.zip (s.splitBy σ (trials σ zs))) s.compiled.output := by
  obtain ⟨passes, tried, sized⟩ := passes_trial (σ := σ) accepts count inputs spelled fits
  exact ⟨tried, passes.1, (formed.exists_evaluateFast_iff passes.1).mp (h _ _ sized passes)⟩

theorem CheckSuffices.centred (h : s.CheckSuffices) (formed : s.WellFormed)
    (accepts : Accepts τ (s.paired ts)) (count : ts.length = s.inputs.length)
    (spelled : ∀ v ∈ s.inputs, ∀ a ∈ v.axes, a.IsSpelled) : ∀ v ∈ s.inputs, v.Centred := by
  intro v input
  by_contra off
  have early : Early v := by
    rw [← map_fst_paired count] at input
    obtain ⟨x, mem, rfl⟩ := List.mem_map.mp input
    exact accepts.early mem
  have contracts := h.contracts formed accepts count spelled (fun _ => 1) (map_fst_bare s.inputs)
    fun z => fits_bare
  exact not_contracts_of_swallowed (map_fst_bare s.inputs) spelled (List.mem_map_of_mem input) early off
    contracts.2.2

theorem fits_of_any (centred : v.Centred) (dots : v.axes.any Axis.isEllipsis = true) (spares : Nat) :
    Fits (v, spares) := by
  obtain ⟨a, axis, ellipsis⟩ := List.any_eq_true.mp dots
  cases a with
  | ellipsis => exact .inr ⟨centred, axis⟩
  | _ => cases ellipsis

theorem CheckSuffices.countP_le_one (h : s.CheckSuffices) (formed : s.WellFormed) (orderly : s.Orderly)
    (accepts : Accepts τ (s.paired ts)) (count : ts.length = s.inputs.length)
    (spelled : ∀ v ∈ s.inputs, ∀ a ∈ v.axes, a.IsSpelled) :
    s.inputs.countP (fun v => v.axes.any Axis.isEllipsis) ≤ 1 := by
  by_contra two
  have centred := h.centred formed accepts count spelled
  obtain ⟨front, v, mid, w, back, split, first, second⟩ := exists_two_of_countP (Nat.lt_of_not_le two)
  let zs := front.map bare ++ (v, 1) :: (mid.map bare ++ (w, 2) :: back.map bare)
  have inputs : zs.map Prod.fst = s.inputs := by
    simp only [zs, List.map_append, List.map_cons, map_fst_bare, split]
  have fits : ∀ z ∈ zs, Fits z := by
    intro z mem
    simp only [zs, List.mem_append, List.mem_cons] at mem
    rcases mem with mem | rfl | mem | rfl | mem
    · exact fits_bare mem
    · exact fits_of_any (centred v (by simp [split])) first 1
    · exact fits_bare mem
    · exact fits_of_any (centred w (by simp [split])) second 2
    · exact fits_bare mem
  obtain ⟨tried, length, contracts⟩ := h.contracts formed accepts count spelled skewed inputs fits
  have aligned := (orderly.contracts_iff formed tried centred length).mp contracts
  rw [paired_trials inputs] at aligned
  refine not_aligned_of_skewed (fun z mem => ?_) fits (v := v) (w := w) ?_ ?_ aligned
  · have early := tried.early (x := trial skewed z)
    rw [paired_trials inputs] at early
    exact early (List.mem_map_of_mem mem)
  · simp [zs]
  · simp [zs]

/-- Whether passing the check suffices for the contraction. Let the output have distinct names and at
most one ellipsis, and have one if an input does. If every ellipsis stands in the middle of its
variable, arrays that pass can be contracted exactly if the dimensions of their ellipses are aligned.
All arrays that pass can be contracted exactly if, moreover, at most one input has an ellipsis, or if
no arrays pass at all. -/
theorem shapeCheck_suffices_iff {text : String} {s : Spec} (parsed : parse text = .ok s)
    (orderly : s.Orderly) :
    ((∀ v ∈ s.inputs, v.Centred) → ∀ ts us, s.Passes ts us →
      ((∃ t, s.evaluateFast us = .ok t) ↔ Aligned (s.paired ts))) ∧
    (s.CheckSuffices ↔
      ((∀ v ∈ s.inputs, v.Centred) ∧ s.inputs.countP (fun v => v.axes.any Axis.isEllipsis) ≤ 1) ∨
        ∀ ts us, ¬ s.Passes ts us) := by
  have formed := wellFormed_of_parse parsed
  have spelled := isSpelled_of_parse parsed
  have criterion : (∀ v ∈ s.inputs, v.Centred) → ∀ ts us, s.Passes ts us →
      ((∃ t, s.evaluateFast us = .ok t) ↔ Aligned (s.paired ts)) := by
    intro centred ts us passes
    obtain ⟨σ, accepts, rfl⟩ := shapeCheck_eq_ok.mp passes.2
    rw [formed.exists_evaluateFast_iff passes.1]
    exact orderly.contracts_iff formed accepts centred passes.1
  refine ⟨criterion, fun suffice => ?_, ?_⟩
  · by_cases passing : ∃ ts us, s.Passes ts us
    · obtain ⟨ts, us, count, checked⟩ := passing
      obtain ⟨τ, accepts, rfl⟩ := shapeCheck_eq_ok.mp checked
      exact .inl ⟨suffice.centred formed accepts count spelled,
        suffice.countP_le_one formed orderly accepts count spelled⟩
    · exact .inr fun ts us passes => passing ⟨ts, us, passes⟩
  · rintro (⟨centred, one⟩ | none) ts us _ passes
    · refine (criterion centred ts us passes).mpr (aligned_of_countP_le_one ?_)
      rwa [map_fst_paired passes.1]
    · exact absurd passes (none ts us)

theorem shapeCheck_suffices_rows :
    ∃ s, parse "x[i, ..., j], y[j] -> [i, ...]" = .ok s ∧ s.Orderly ∧ s.CheckSuffices ∧
      s.Passes [.counting [2, 1, 2] 1, .counting [2] 1] [.counting [2, 1, 2] 1, .counting [2] 1] := by
  let s : Spec := ⟨[⟨some "x", [.named "i", .ellipsis, .named "j"]⟩, ⟨some "y", [.named "j"]⟩],
    some ⟨none, [.named "i", .ellipsis]⟩, [("i", "A"), ("j", "B")]⟩
  have runs : (parse "x[i, ..., j], y[j] -> [i, ...]").toOption = some s ∧
      (s.shapeCheck [.counting [2, 1, 2] 1, .counting [2] 1]).toOption =
        some [.counting [2, 1, 2] 1, .counting [2] 1] := by decide +kernel
  have orderly : s.Orderly := ⟨by decide, by decide, by decide⟩
  have parsed := ok_of_toOption runs.1
  have centred : ∀ v ∈ s.inputs, v.Centred := by decide
  exact ⟨s, parsed, orderly, (shapeCheck_suffices_iff parsed orderly).2.mpr (.inl ⟨centred, by decide⟩),
    rfl, ok_of_toOption runs.2⟩

theorem passes_without_contraction :
    (∃ s us, parse "a[..., i] -> [..., i]" = .ok s ∧ s.Orderly ∧ s.Passes [.counting [1] 1] us ∧
      ∀ t, s.evaluateFast us ≠ .ok t) ∧
    ∃ s us, parse "x[i, ..., j], y[i, ..., j] -> [i, ..., j]" = .ok s ∧ s.Orderly ∧
      s.Passes [.counting [1, 2, 1] 1, .counting [1, 2, 3, 1] 1] us ∧ ∀ t, s.evaluateFast us ≠ .ok t := by
  let a : Spec := ⟨[⟨some "a", [.ellipsis, .named "i"]⟩], some ⟨none, [.ellipsis, .named "i"]⟩, [("i", "A")]⟩
  let b : Spec := ⟨[⟨some "x", [.named "i", .ellipsis, .named "j"]⟩,
      ⟨some "y", [.named "i", .ellipsis, .named "j"]⟩],
    some ⟨none, [.named "i", .ellipsis, .named "j"]⟩, [("i", "A"), ("j", "B")]⟩
  have runs : ((parse "a[..., i] -> [..., i]").toOption = some a ∧
        (a.shapeCheck [.counting [1] 1]).toOption = some [⟨[], #[1]⟩] ∧
        (a.evaluateFast [⟨[], #[1]⟩]).toOption = none) ∧
      (parse "x[i, ..., j], y[i, ..., j] -> [i, ..., j]").toOption = some b ∧
        (b.shapeCheck [.counting [1, 2, 1] 1, .counting [1, 2, 3, 1] 1]).toOption =
          some [.counting [1, 2, 1] 1, .counting [1, 2, 3, 1] 1] ∧
        (b.evaluateFast [.counting [1, 2, 1] 1, .counting [1, 2, 3, 1] 1]).toOption = none := by
    decide +kernel
  have fails {s : Spec} {us : List Tensor} (none : (s.evaluateFast us).toOption = none) (t : Tensor) :
      s.evaluateFast us ≠ .ok t := by
    intro returned
    rw [returned] at none
    cases none
  obtain ⟨⟨first, passes, none⟩, second, passes', none'⟩ := runs
  exact ⟨⟨a, _, ok_of_toOption first, ⟨by decide, by decide, by decide⟩, ⟨rfl, ok_of_toOption passes⟩,
      fails none⟩,
    b, _, ok_of_toOption second, ⟨by decide, by decide, by decide⟩, ⟨rfl, ok_of_toOption passes'⟩,
      fails none'⟩

end Spec

end AxisLang
