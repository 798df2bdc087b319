import AxisLang.Proofs.Indices
import AxisLang.Proofs.Letters
import Mathlib.Algebra.BigOperators.Group.Finset.Basic
import Mathlib.Algebra.Ring.Int.Defs
import Mathlib.Data.List.Induction

/-! What an expression means.
Given a size for each axis name, a product axis is as large as its factors together, and values of the
names tell an index into each variable: along a product the values of the factors are the digits of a
number in mixed radix. The meaning of an expression at values of its output names is the sum, over all
values of the other names, of the products of the elements that the inputs have there. -/
namespace AxisLang

variable {σ ι : String → Nat}

namespace Axis

def size (σ : String → Nat) : Axis → Nat
  | .named n => σ n
  | .product ns => (ns.map σ).prod
  | .ellipsis => 1

def index (σ ι : String → Nat) : Axis → Nat
  | .named n => ι n
  | .product ns => ns.foldl (fun k n => k * σ n + ι n) 0
  | .ellipsis => 0

end Axis

namespace Variable

def shape (σ : String → Nat) (v : Variable) : Shape :=
  v.axes.map (Axis.size σ)

def index (σ ι : String → Nat) (v : Variable) : List Nat :=
  v.axes.map (Axis.index σ ι)

end Variable

/-- The sum over all values of some names, the values of all others being given. -/
def sumOver (σ : String → Nat) : List String → ((String → Nat) → Int) → (String → Nat) → Int
  | [], f, ι => f ι
  | n :: ns, f, ι => ∑ k ∈ Finset.range (σ n), sumOver σ ns f (Function.update ι n k)

/-- The names that an output lacks, each once, in the order in which they first occur. -/
def summed (names out : List String) : List String :=
  names.eraseDups.filter fun n => !out.contains n

namespace Spec

def resultAxes (s : Spec) : List Axis :=
  (s.output.map Variable.axes).getD []

/-- The product of the elements of the inputs for given values of all names. -/
def productAt (s : Spec) (σ : String → Nat) (ts : List Tensor) (ι : String → Nat) : Int :=
  (s.inputs.zipWith (fun v t => t.get (v.index σ ι)) ts).prod

/-- The element of the result for given values of the output names, wrapped around into 64 bits. -/
def denote (s : Spec) (σ : String → Nat) (ts : List Tensor) (ι : String → Nat) : Int :=
  word (sumOver σ (summed (inputNames s.inputs) (outputNames s.output)) (s.productAt σ ts) ι)

theorem flatMap_names_resultAxes (s : Spec) :
    s.resultAxes.flatMap Axis.names = outputNames s.output := by
  rw [resultAxes, outputNames]
  cases s.output <;> rfl

end Spec

theorem volume_eq_prod (s : Shape) : volume s = s.prod := by
  induction s with
  | nil => rfl
  | cons n s ih => rw [volume_cons, ih, List.prod_cons]

theorem volume_map_size (axes : List Axis) :
    volume (axes.map (Axis.size σ)) = volume ((axes.flatMap Axis.names).map σ) := by
  induction axes with
  | nil => rfl
  | cons a axes ih =>
    have own : a.size σ = volume (a.names.map σ) := by
      cases a with
      | named n => simp [Axis.size, Axis.names]
      | product ns => exact (volume_eq_prod _).symm
      | ellipsis => rfl
    rw [List.map_cons, volume_cons, ih, own, List.flatMap_cons, List.map_append, volume_append]

theorem flatIndex_map (ns : List String) :
    flatIndex (ns.map σ) (ns.map ι) = ns.foldl (fun k n => k * σ n + ι n) 0 := by
  induction ns using List.reverseRecOn with
  | nil => rfl
  | append_singleton ns n ih =>
    rw [List.map_append, List.map_append, flatIndex_append (by simp), ih, List.foldl_append]
    simp [flatIndex]

theorem Axis.flatIndex_names (a : Axis) :
    flatIndex (a.names.map σ) (a.names.map ι) = a.index σ ι := by
  cases a with
  | named n => simp [names, flatIndex, index]
  | product ns => exact flatIndex_map ns
  | ellipsis => rfl

theorem flatIndex_map_index (axes : List Axis) :
    flatIndex (axes.map (Axis.size σ)) (axes.map (Axis.index σ ι)) =
      flatIndex ((axes.flatMap Axis.names).map σ) ((axes.flatMap Axis.names).map ι) := by
  induction axes with
  | nil => rfl
  | cons a axes ih =>
    rw [List.map_cons, List.map_cons, flatIndex, ih, volume_map_size, List.flatMap_cons,
      List.map_append, List.map_append, flatIndex_append (by simp), a.flatIndex_names]

theorem Axis.index_lt {a : Axis} (h : ∀ n ∈ a.names, ι n < σ n) : a.index σ ι < a.size σ := by
  rw [← a.flatIndex_names]
  have below := flatIndex_lt (map_mem_indices h)
  have same := volume_map_size (σ := σ) [a]
  simp only [List.map_cons, List.map_nil, List.flatMap_cons, List.flatMap_nil, List.append_nil,
    volume_cons, volume_nil, Nat.mul_one] at same
  rwa [← same] at below

theorem map_index_mem_indices {axes : List Axis}
    (h : ∀ n ∈ axes.flatMap Axis.names, ι n < σ n) :
    axes.map (Axis.index σ ι) ∈ indices (axes.map (Axis.size σ)) := by
  refine map_mem_indices fun a mem => Axis.index_lt fun n name => h n ?_
  exact List.mem_flatMap.mpr ⟨a, mem, name⟩

theorem exists_map_index_eq {axes : List Axis} (distinct : (axes.flatMap Axis.names).Nodup)
    {i : List Nat} (mem : i ∈ indices (axes.map (Axis.size σ))) :
    ∃ ι : String → Nat, (∀ n ∈ axes.flatMap Axis.names, ι n < σ n) ∧ axes.map (Axis.index σ ι) = i := by
  have below := flatIndex_lt mem
  rw [volume_map_size] at below
  obtain ⟨j, hj, place⟩ := exists_flatIndex_eq below
  obtain ⟨ι, rfl⟩ := exists_map_eq distinct (by simpa using (mem_indices.mp hj).length_eq)
  have bound : ∀ n ∈ axes.flatMap Axis.names, ι n < σ n := by
    rwa [mem_indices, List.forall₂_map_left_iff, List.forall₂_map_right_iff, List.forall₂_same] at hj
  refine ⟨ι, bound, flatIndex_inj (map_index_mem_indices bound) mem ?_⟩
  rw [flatIndex_map_index, place]

theorem sumOver_congr {f g : (String → Nat) → Int} {ns : List String}
    (h : ∀ κ : String → Nat, (∀ n ∈ ns, κ n < σ n) → (∀ n ∉ ns, κ n = ι n) → f κ = g κ) :
    sumOver σ ns f ι = sumOver σ ns g ι := by
  induction ns generalizing ι with
  | nil => exact h ι (by simp) (by simp)
  | cons n ns ih =>
    refine Finset.sum_congr rfl fun k below => ih fun κ bound same => h κ ?_ ?_
    · intro m mem
      by_cases inside : m ∈ ns
      · exact bound m inside
      · obtain rfl : m = n := (List.mem_cons.mp mem).resolve_right inside
        rw [same m inside, Function.update_self]
        exact Finset.mem_range.mp below
    · intro m out
      rw [List.mem_cons, not_or] at out
      rw [same m out.2, Function.update_of_ne out.1]

theorem sum_indices {ns : List String} (distinct : ns.Nodup) (g : List Nat → Int) :
    ((indices (ns.map σ)).map g).sum = sumOver σ ns (fun κ => g (ns.map κ)) ι := by
  induction ns generalizing ι g with
  | nil => simp [indices, sumOver]
  | cons n ns ih =>
    obtain ⟨fresh, rest⟩ := List.nodup_cons.mp distinct
    have outer : ((indices ((n :: ns).map σ)).map g).sum =
        ((List.range (σ n)).map fun k => ((indices (ns.map σ)).map fun i => g (k :: i)).sum).sum := by
      rw [List.map_cons, indices, List.map_flatMap, List.flatMap_def, List.sum_flatten]
      simp only [List.map_map, Function.comp_def]
    rw [outer, sumOver]
    change ∑ k ∈ Finset.range _, _ = _
    refine Finset.sum_congr rfl fun k _ => ?_
    rw [ih rest (ι := Function.update ι n k)]
    refine sumOver_congr fun κ _ same => ?_
    rw [List.map_cons, same n fresh, Function.update_self]

end AxisLang
