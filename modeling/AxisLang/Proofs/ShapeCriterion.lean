import AxisLang.Proofs.Consistency

/-! Exactly which arrays the shape check takes for variables without an ellipsis.
The criterion speaks of the axes of the variables that have an array, each with its dimension, in the
order in which they are looked at. The size of a name is that of its first plain axis. -/
namespace AxisLang

namespace Spec

open Shape

variable {s : Spec} {ts us : List Tensor} {n : String} {k : Nat}

def scan (s : Spec) (ts : List Tensor) : List (Axis × Nat) :=
  (s.inputs.zip ts).flatMap fun x => x.1.axes.zip x.2.shape

/-- The size of the first plain axis of a name. -/
def sizeIn (s : Spec) (ts : List Tensor) (n : String) : Nat :=
  ((s.scan ts).lookup (.named n)).getD 0

structure Fitting (s : Spec) (ts : List Tensor) : Prop where
  ranks : ∀ x ∈ s.inputs.zip ts, x.2.rank = x.1.axes.length
  sizes : ∀ n k m, (.named n, k) ∈ s.scan ts → (.named n, m) ∈ s.scan ts → k = m
  products : ∀ front ns k back, s.scan ts = front ++ (.product ns, k) :: back →
    (∀ n ∈ ns, ∃ m, (.named n, m) ∈ front) → k = (ns.map (s.sizeIn ts)).prod
  factors : ∀ x ∈ s.inputs.zip ts, ∀ ns, .product ns ∈ x.1.axes → ∀ n ∈ ns,
    ∃ y ∈ s.inputs.zip ts, .named n ∈ y.1.axes
  volumes : ∀ x ∈ s.inputs.zip ts, volume x.2.shape = volume (x.1.axisNames.map (s.sizeIn ts))

theorem sizeIn_mem (mem : (.named n, k) ∈ s.scan ts) : (.named n, s.sizeIn ts n) ∈ s.scan ts := by
  unfold sizeIn
  cases found : (s.scan ts).lookup (.named n) with
  | none => simpa using List.lookup_eq_none_iff.mp found _ mem
  | some m =>
    obtain ⟨front, back, split, _⟩ := List.lookup_eq_some_iff.mp found
    simp [split]

theorem mem_scan {x : Variable × Tensor} {a : Axis} (mem : x ∈ s.inputs.zip ts)
    (rank : x.2.rank = x.1.axes.length) (axis : a ∈ x.1.axes) : ∃ k, (a, k) ∈ s.scan ts := by
  obtain ⟨k, dim⟩ := exists_zip_of_mem rank.ge axis
  exact ⟨k, List.mem_flatMap.mpr ⟨x, mem, dim⟩⟩

theorem exists_pair_of_mem_scan {a : Axis} (mem : (a, k) ∈ s.scan ts) :
    ∃ x ∈ s.inputs.zip ts, a ∈ x.1.axes := by
  obtain ⟨x, pair, dim⟩ := List.mem_flatMap.mp mem
  exact ⟨x, pair, (List.of_mem_zip dim).1⟩

section Dotless

variable (dotless : ∀ v ∈ s.inputs, .ellipsis ∉ v.axes)

include dotless

theorem solid_of_dotless (ts : List Tensor) : Solid (s.paired ts) := by
  intro x mem
  exact Axis.solid_of_notMem (dotless x.1 (List.of_mem_zip mem).1)

theorem scanOf_paired (ts : List Tensor) : scanOf (s.paired ts) = s.scan ts := by
  have solid := solid_of_dotless dotless ts
  rw [paired_eq] at solid ⊢
  rw [scanOf, scan, List.flatMap_map]
  refine List.flatMap_congr fun x mem => ?_
  rw [material_plain _ (solid _ (List.mem_map_of_mem mem))]

theorem dimNames_pair {x : Variable × Tensor} (mem : x ∈ s.inputs.zip ts) :
    dimNames (x.1, x.2.shape) = x.1.axisNames :=
  dimNames_eq (solid_of_dotless dotless ts) (mem_paired mem)

theorem fitting_of_accepts {σ : String → Nat} (h : Accepts σ (s.paired ts)) :
    s.Fitting ts ∧ ∀ x ∈ s.inputs.zip ts, ∀ n ∈ x.1.axisNames, s.sizeIn ts n = σ n := by
  have solid := solid_of_dotless dotless ts
  have agrees := h.agrees
  have known := h.known
  rw [scanOf_paired dotless] at agrees known
  have size {n : String} {k : Nat} (mem : (.named n, k) ∈ s.scan ts) : s.sizeIn ts n = σ n :=
    agrees.named n _ (sizeIn_mem mem)
  have plain : ∀ x ∈ s.inputs.zip ts, ∀ n ∈ x.1.axisNames, ∃ k, (.named n, k) ∈ s.scan ts := by
    intro x mem n name
    rw [← dimNames_pair dotless mem] at name
    exact mem_plainNames.mp (known _ (mem_paired mem) n name)
  have same : ∀ x ∈ s.inputs.zip ts, ∀ n ∈ x.1.axisNames, s.sizeIn ts n = σ n := by
    intro x mem n name
    obtain ⟨k, dim⟩ := plain x mem n name
    exact size dim
  refine ⟨⟨?_, ?_, ?_, ?_, ?_⟩, same⟩
  · exact fun x mem => h.rank_eq solid (mem_paired mem)
  · exact fun n k m first second => (agrees.named n k first).trans (agrees.named n m second).symm
  · intro front ns k back split factors
    rw [agrees.product front ns k back split fun n factor => mem_plainNames.mpr (factors n factor)]
    congr 1
    refine List.map_congr_left fun n factor => ?_
    obtain ⟨m, dim⟩ := factors n factor
    exact (size (k := m) (by rw [split]; exact List.mem_append_left _ dim)).symm
  · intro x mem ns product n factor
    obtain ⟨k, dim⟩ := plain x mem n (List.mem_flatMap.mpr ⟨_, product, factor⟩)
    exact exists_pair_of_mem_scan dim
  · intro x mem
    have volumes := h.volumes _ (mem_paired mem)
    rw [dimNames_pair dotless mem] at volumes
    rw [← volumes, List.map_congr_left (same x mem)]

theorem Fitting.accepts (h : s.Fitting ts) : Accepts (s.sizeIn ts) (s.paired ts) := by
  have solid := solid_of_dotless dotless ts
  have scan := scanOf_paired dotless ts
  have each {x : Variable × Shape} (mem : x ∈ s.paired ts) :
      ∃ y ∈ s.inputs.zip ts, x = (y.1, y.2.shape) := by
    rw [paired_eq] at mem
    obtain ⟨y, pair, rfl⟩ := List.mem_map.mp mem
    exact ⟨y, pair, rfl⟩
  refine ⟨fun x mem => ?_, ?_, fun x mem n name => ?_, fun x mem => ?_⟩
  · obtain ⟨y, pair, rfl⟩ := each mem
    refine ⟨?_, fun _ => h.ranks y pair, ?_⟩
    · rw [List.countP_eq_zero.mpr fun a axis => by simp [solid _ mem a axis]]
      exact Nat.zero_le 1
    · rw [material_plain _ (solid _ mem)]
      exact (h.ranks y pair).ge
  · rw [scan]
    refine ⟨?_, fun n k mem => h.sizes n k _ mem (sizeIn_mem mem),
      fun front ns k back split factors => ?_⟩
    · rintro ⟨a, k⟩ mem
      obtain ⟨y, pair, axis⟩ := exists_pair_of_mem_scan mem
      exact solid _ (mem_paired pair) a axis
    · exact h.products front ns k back split fun n factor => mem_plainNames.mp (factors n factor)
  · obtain ⟨y, pair, rfl⟩ := each mem
    rw [dimNames_pair dotless pair] at name
    rw [scan, mem_plainNames]
    -- a plain axis is in the scan itself, a factor by the condition on products
    obtain ⟨a, axis, own⟩ := List.mem_flatMap.mp name
    cases a with
    | named m =>
      obtain rfl := List.mem_singleton.mp own
      exact mem_scan pair (h.ranks y pair) axis
    | product ns =>
      obtain ⟨z, other, plain⟩ := h.factors y pair ns axis n own
      exact mem_scan other (h.ranks z other) plain
    | ellipsis => cases own
  · obtain ⟨y, pair, rfl⟩ := each mem
    rw [dimNames_pair dotless pair]
    exact (h.volumes y pair).symm

theorem splitBy_eq_zipWith {σ : String → Nat}
    (same : ∀ x ∈ s.inputs.zip ts, ∀ n ∈ x.1.axisNames, s.sizeIn ts n = σ n) :
    s.splitBy σ ts = s.inputs.zipWith (fun v t => ⟨v.axisNames.map (s.sizeIn ts), t.data⟩) ts := by
  have each (f : Variable → Tensor → Tensor) :
      s.inputs.zipWith f ts = (s.inputs.zip ts).map fun x => f x.1 x.2 :=
    (List.map_zip_eq_zipWith (f := fun x => f x.1 x.2)).symm
  rw [splitBy, each, each]
  refine List.map_congr_left fun x mem => ?_
  rw [dimNames_pair dotless mem, List.map_congr_left (same x mem)]

end Dotless

/-- The shape check of variables without an ellipsis passes exactly if the arrays fit. It returns an
array for each variable that has one, with the sizes of the flattened axes as its shape and with
the elements it had. -/
theorem shapeCheck_eq_ok_iff_fitting (dotless : ∀ v ∈ s.inputs, .ellipsis ∉ v.axes) :
    s.shapeCheck ts = .ok us ↔ s.Fitting ts ∧ us.length = min s.inputs.length ts.length ∧
      us = s.inputs.zipWith (fun v t => ⟨v.axisNames.map (s.sizeIn ts), t.data⟩) ts := by
  rw [shapeCheck_eq_ok]
  constructor
  · rintro ⟨σ, accepts, rfl⟩
    obtain ⟨fitting, same⟩ := fitting_of_accepts dotless accepts
    exact ⟨fitting, List.length_zipWith, splitBy_eq_zipWith dotless same⟩
  · rintro ⟨fitting, _, rfl⟩
    refine ⟨_, fitting.accepts dotless, ?_⟩
    exact (splitBy_eq_zipWith dotless fun _ _ _ _ => rfl).symm

theorem shapeCheck_fitting_early_product :
    ∃ s : Spec, s.inputs.map Variable.axes =
        [[.product ["i", "j"], .named "k"], [.named "i"], [.named "j"]] ∧
      s.Fitting [.counting [6, 2] 1, .counting [2] 1, .counting [3] 1, .counting [5] 1] ∧
      s.shapeCheck [.counting [6, 2] 1, .counting [2] 1, .counting [3] 1, .counting [5] 1] =
        .ok [⟨[2, 3, 2], (Tensor.counting [6, 2] 1).data⟩, .counting [2] 1, .counting [3] 1] := by
  let s : Spec := ⟨[⟨some "M", [.product ["i", "j"], .named "k"]⟩, ⟨some "u", [.named "i"]⟩,
    ⟨some "v", [.named "j"]⟩], none, []⟩
  have dotless : ∀ v ∈ s.inputs, .ellipsis ∉ v.axes := by decide
  have checked : s.shapeCheck [.counting [6, 2] 1, .counting [2] 1, .counting [3] 1,
      .counting [5] 1] = .ok [⟨[2, 3, 2], (Tensor.counting [6, 2] 1).data⟩, .counting [2] 1,
      .counting [3] 1] := ok_of_toOption (by decide +kernel)
  exact ⟨s, rfl, ((shapeCheck_eq_ok_iff_fitting dotless).mp checked).1, checked⟩

end Spec

end AxisLang
