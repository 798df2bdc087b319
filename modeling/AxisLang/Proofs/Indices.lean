import AxisLang.Proofs.Lists
import AxisLang.Tensor.Basic
import Mathlib.Data.List.Forall2

/-! Indices in row-major order.
The places of all indices of a shape, taken in order, are the numbers below its volume. So every
number below the volume is the place of one index, and an array made from a function has its values
at the indices. -/
namespace AxisLang

theorem mem_indices {s : Shape} {i : List Nat} :
    i ∈ indices s ↔ List.Forall₂ (fun k n => k < n) i s := by
  induction s generalizing i with
  | nil => rw [indices, List.mem_singleton, List.forall₂_nil_right_iff]
  | cons n s ih =>
    simp only [indices, List.mem_flatMap, List.mem_range, List.mem_map, List.forall₂_cons_right_iff,
      ih]
    constructor
    · rintro ⟨k, below, j, rest, rfl⟩
      exact ⟨k, j, below, rest, rfl⟩
    · rintro ⟨k, j, below, rest, rfl⟩
      exact ⟨k, below, j, rest, rfl⟩

theorem map_mem_indices {α : Type} {σ ι : α → Nat} {ns : List α} (h : ∀ n ∈ ns, ι n < σ n) :
    ns.map ι ∈ indices (ns.map σ) := by
  rw [mem_indices, List.forall₂_map_left_iff, List.forall₂_map_right_iff, List.forall₂_same]
  exact h

theorem map_flatIndex_indices (s : Shape) : (indices s).map (flatIndex s) = List.range (volume s) := by
  induction s with
  | nil => rfl
  | cons n s ih =>
    rw [indices, List.map_flatMap, volume_cons, range_mul]
    congr 1
    funext i
    rw [← ih, List.map_map, List.map_map]
    rfl

theorem flatIndex_getElem? {s : Shape} {k : Nat} {i : List Nat} (h : (indices s)[k]? = some i) :
    flatIndex s i = k := by
  have place := congrArg (fun l => l[k]?) (map_flatIndex_indices s)
  simp only [List.getElem?_map, h, Option.map_some] at place
  obtain ⟨_, same⟩ := List.getElem?_eq_some_iff.mp place.symm
  rw [← same, List.getElem_range]

theorem getElem?_flatIndex {s : Shape} {i : List Nat} (mem : i ∈ indices s) :
    (indices s)[flatIndex s i]? = some i := by
  obtain ⟨k, h⟩ := List.mem_iff_getElem?.mp mem
  rw [flatIndex_getElem? h, h]

theorem flatIndex_lt {s : Shape} {i : List Nat} (mem : i ∈ indices s) : flatIndex s i < volume s := by
  rw [← length_indices]
  exact (List.getElem?_eq_some_iff.mp (getElem?_flatIndex mem)).1

theorem flatIndex_inj {s : Shape} {i j : List Nat} (hi : i ∈ indices s) (hj : j ∈ indices s)
    (same : flatIndex s i = flatIndex s j) : i = j := by
  have at_i := getElem?_flatIndex hi
  rw [same, getElem?_flatIndex hj] at at_i
  exact (Option.some.inj at_i).symm

theorem exists_flatIndex_eq {s : Shape} {k : Nat} (h : k < volume s) :
    ∃ i ∈ indices s, flatIndex s i = k := by
  rw [← length_indices] at h
  refine ⟨(indices s)[k], List.getElem_mem h, flatIndex_getElem? ?_⟩
  exact List.getElem?_eq_getElem h

theorem flatIndex_append {s s' : Shape} {i i' : List Nat} (h : i.length = s.length) :
    flatIndex (s ++ s') (i ++ i') = flatIndex s i * volume s' + flatIndex s' i' := by
  induction s generalizing i with
  | nil =>
    rw [List.length_eq_zero_iff.mp h]
    simp [flatIndex]
  | cons n s ih =>
    obtain ⟨k, i, rfl⟩ := List.exists_cons_of_length_eq_add_one h
    have rest : i.length = s.length := Nat.succ.inj h
    rw [List.cons_append, List.cons_append, flatIndex, flatIndex, ih rest, volume_append,
      Nat.add_mul, Nat.mul_assoc, Nat.add_assoc]

namespace Tensor

theorem size_ofFn (s : Shape) (f : List Nat → Int) : (ofFn s f).data.size = volume s := by
  simp [ofFn, length_indices]

theorem get_ofFn {s : Shape} {i : List Nat} (f : List Nat → Int) (mem : i ∈ indices s) :
    (ofFn s f).get i = f i := by
  simp [get, ofFn, Array.getD_eq_getD_getElem?, getElem?_flatIndex mem]

end Tensor

end AxisLang
