import AxisLang.Proofs.Identities

/-! The subtrees of a tree in the places where they stand: from the children up, and row by row. Below a
row of trees stand the trees among their children. -/
namespace AxisLang

open Transformer (postorder)

namespace Value

variable {u v w c : Value} {us vs row : List Value} {d e n : Nat}

def trees (v : Value) : List Value :=
  (postorder v).filter isTree

@[simp] theorem trees_tree (i : Option Nat) (l : Label) (cs : List Value) (s : Span) :
    (Value.tree i l cs s).trees = cs.flatMap trees ++ [.tree i l cs s] := by
  rw [trees, postorder_tree, List.filter_append, List.filter_flatMap]
  rfl

theorem trees_eq (h : v.isTree = true) : v.trees = v.children.flatMap trees ++ [v] := by
  cases v with
  | tree i l cs s => exact trees_tree i l cs s
  | _ => cases h

theorem trees_of_not_tree (h : v.isTree = false) : v.trees = [] := by
  simp [trees, postorder_of_not_tree h, h]

theorem filterMap_id_trees (v : Value) : v.trees.filterMap id? = v.subtreeIds := by
  rw [trees, subtreeIds, List.filterMap_filter]
  refine List.filterMap_congr ?_
  intro u _
  cases u <;> rfl

/-- The values that some values are made of, each with an identity if it is a tree. -/
def AllNamed (vs : List Value) : Prop :=
  ∀ u ∈ vs.flatMap postorder, u.isTree = true → ∃ i, u.id? = some i

theorem mem_postorder_self (v : Value) : v ∈ postorder v := by
  cases tree : v.isTree with
  | false => simp [postorder_of_not_tree tree]
  | true =>
    cases v with
    | tree i l cs s => simp
    | _ => cases tree

theorem size_lt_of_child (child : c ∈ v.children) : c.size < v.size := by
  have bound {cs : List Value} (mem : c ∈ cs) : c.size ≤ sizeAll cs := by
    induction cs with
    | nil => simp at mem
    | cons d cs ih =>
      rw [sizeAll]
      rcases List.mem_cons.mp mem with rfl | mem
      · omega
      · have rest := ih mem
        omega
  cases v with
  | tree i l cs s =>
    have inner : c.size ≤ sizeAll cs := bound child
    rw [size]
    omega
  | _ => simp [children] at child

/-- Every subtree stands behind the trees among its children. -/
def BottomUp (vs : List Value) : Prop :=
  ∀ before x after, vs = before ++ x :: after → ∀ c ∈ x.children, c.isTree = true → c ∈ before

theorem BottomUp.append_singleton (h : BottomUp vs) (children : ∀ c ∈ v.children, c.isTree = true → c ∈ vs) :
    BottomUp (vs ++ [v]) := by
  intro before x after eq
  rcases List.eq_nil_or_concat after with rfl | ⟨middle, last, rfl⟩
  · obtain ⟨rfl, same⟩ := List.append_inj' eq rfl
    obtain rfl := (List.cons.inj same).1
    exact children
  · rw [List.concat_eq_append, ← List.cons_append, ← List.append_assoc] at eq
    exact h before x middle (List.append_inj' eq rfl).1

theorem BottomUp.append (h : BottomUp vs)
    (children : ∀ u ∈ us, ∀ c ∈ u.children, c.isTree = true → c ∈ vs) : BottomUp (vs ++ us) := by
  induction us generalizing vs with
  | nil => simpa using h
  | cons u us ih =>
    rw [List.forall_mem_cons] at children
    rw [← List.singleton_append, ← List.append_assoc]
    refine ih (h.append_singleton children.1) ?_
    intro x mem c among tree
    exact List.mem_append_left _ (children.2 x mem c among tree)

theorem BottomUp.concat (h : BottomUp us) (h' : BottomUp vs) : BottomUp (us ++ vs) := by
  intro before x after split c child tree
  rcases List.append_eq_append_iff.mp split with ⟨middle, rfl, rest⟩ | ⟨middle, rfl, rest⟩
  · exact List.mem_append_right _ (h' middle x after rest c child tree)
  · cases middle with
    | nil => simpa using h' [] x after rest.symm c child tree
    | cons y middle =>
      obtain ⟨rfl, _⟩ := List.cons.inj rest
      exact h before x middle rfl c child tree

theorem mem_trees_self (h : v.isTree = true) : v ∈ v.trees := by
  rw [trees_eq h]
  exact List.mem_append_right _ List.mem_cons_self

theorem bottomUp_trees (v : Value) : BottomUp v.trees := by
  have none : BottomUp [] := by simp [BottomUp]
  induction v using nested_induction with
  | tree i l cs s ih =>
    have children : BottomUp (cs.flatMap trees) := by
      induction cs with
      | nil => exact none
      | cons c cs rest =>
        rw [List.forall_mem_cons] at ih
        exact ih.1.concat (rest ih.2)
    rw [trees_tree]
    refine children.append_singleton ?_
    intro c child tree
    exact List.mem_flatMap.mpr ⟨c, child, mem_trees_self tree⟩
  | list xs ih => rw [trees_of_not_tree rfl]; exact none
  | other v tree list => rw [trees_of_not_tree tree]; exact none

/-- Every subtree stands behind all trees in it. -/
def DescendantsFirst (vs : List Value) : Prop :=
  ∀ before x after, vs = before ++ x :: after → ∀ u ∈ x.children.flatMap trees, u ∈ before

theorem BottomUp.descendantsFirst (h : BottomUp vs) : DescendantsFirst vs := by
  intro before x after split u mem
  obtain ⟨c, child, inside⟩ := List.mem_flatMap.mp mem
  clear mem
  induction c using nested_induction generalizing before x after with
  | tree i l cs s ih =>
    have here := h before x after split _ child rfl
    rw [trees_tree, List.mem_append, List.mem_singleton] at inside
    rcases inside with inside | rfl
    · obtain ⟨front, back, rfl⟩ := List.append_of_mem here
      obtain ⟨d, among, inside⟩ := List.mem_flatMap.mp inside
      rw [List.append_assoc, List.cons_append] at split
      exact List.mem_append_left _ (ih d among front _ _ split among inside)
    · exact here
  | list xs ih => simp [trees_of_not_tree (v := .list xs) rfl] at inside
  | other c tree list => simp [trees_of_not_tree tree] at inside

def nextRow (row : List Value) : List Value :=
  row.flatMap fun u => u.children.filter isTree

def level : Nat → List Value → List Value
  | 0, row => row
  | d + 1, row => level d (nextRow row)

/-- The first `n` rows, from the lowest up. -/
def rowsUp : Nat → List Value → List Value
  | 0, _ => []
  | n + 1, row => rowsUp n (nextRow row) ++ row

mutual

def height : Value → Nat
  | .tree _ _ cs _ => heightAll cs + 1
  | _ => 0

def heightAll : List Value → Nat
  | [] => 0
  | v :: vs => max (height v) (heightAll vs)

end

theorem mem_nextRow : c ∈ nextRow row ↔ ∃ u ∈ row, c ∈ u.children ∧ c.isTree = true := by
  simp [nextRow]

theorem level_succ (d : Nat) (row : List Value) : level (d + 1) row = nextRow (level d row) := by
  induction d generalizing row with
  | zero => rfl
  | succ d ih => exact ih (nextRow row)

theorem rowsUp_eq_levels (n : Nat) (row : List Value) :
    rowsUp n row = (List.range n).reverse.flatMap fun d => level d row := by
  induction n generalizing row with
  | zero => rfl
  | succ n ih =>
    rw [rowsUp, ih, List.range_succ_eq_map, List.reverse_cons, List.flatMap_append, ← List.map_reverse,
      List.flatMap_map]
    simp [level]

theorem mem_rowsUp : u ∈ rowsUp n row ↔ ∃ d < n, u ∈ level d row := by
  simp [rowsUp_eq_levels]

theorem nextRow_rowsUp (n : Nat) (row : List Value) : nextRow (rowsUp n row) = rowsUp n (nextRow row) := by
  induction n generalizing row with
  | zero => rfl
  | succ n ih => rw [rowsUp, rowsUp, nextRow, List.flatMap_append, ← nextRow, ← nextRow, ih]

theorem height_le_heightAll (mem : v ∈ vs) : v.height ≤ heightAll vs := by
  induction vs with
  | nil => simp at mem
  | cons w vs ih =>
    rw [heightAll]
    rcases List.mem_cons.mp mem with rfl | mem
    · exact Nat.le_max_left _ _
    · exact Nat.le_trans (ih mem) (Nat.le_max_right _ _)

theorem height_lt_of_child (child : c ∈ v.children) : c.height < v.height := by
  cases v with
  | tree i l cs s => exact Nat.lt_succ_of_le (height_le_heightAll child)
  | _ => simp [children] at child

/-- The trees of a row, each of which has at most `n` rows. -/
def Low (n : Nat) (row : List Value) : Prop :=
  ∀ u ∈ row, u.isTree = true ∧ u.height ≤ n

theorem low_root (tree : v.isTree = true) : Low v.height [v] := by
  simp [Low, tree]

theorem Low.next (h : Low (n + 1) row) : Low n (nextRow row) := by
  intro c mem
  obtain ⟨u, among, child, tree⟩ := mem_nextRow.mp mem
  have less := height_lt_of_child child
  have bound := (h u among).2
  exact ⟨tree, by omega⟩

theorem Low.eq_nil (h : Low 0 row) : row = [] := by
  rw [List.eq_nil_iff_forall_not_mem]
  intro u mem
  obtain ⟨tree, bound⟩ := h u mem
  cases u with
  | tree i l cs s => simp [height] at bound
  | _ => cases tree

theorem Low.level_eq_nil (h : Low n row) (deep : n ≤ d) : level d row = [] := by
  induction n generalizing row d with
  | zero =>
    obtain rfl := h.eq_nil
    clear h deep
    induction d with
    | zero => rfl
    | succ d ih => exact ih
  | succ n ih =>
    cases d with
    | zero => omega
    | succ d =>
      rw [level]
      exact ih h.next (by omega)

theorem flatMap_trees_filter (us : List Value) : (us.filter isTree).flatMap trees = us.flatMap trees := by
  induction us with
  | nil => rfl
  | cons u us ih =>
    cases tree : u.isTree with
    | true => rw [List.filter_cons_of_pos tree, List.flatMap_cons, List.flatMap_cons, ih]
    | false =>
      rw [List.filter_cons_of_neg (by simp [tree]), List.flatMap_cons, trees_of_not_tree tree, ih,
        List.nil_append]

theorem perm_nextRow (all : ∀ u ∈ us, u.isTree = true) :
    ((nextRow us).flatMap trees ++ us).Perm (us.flatMap trees) := by
  induction us with
  | nil => rfl
  | cons u us ih =>
    rw [List.forall_mem_cons] at all
    have rest := (ih all.2).cons u
    rw [nextRow, List.flatMap_cons, List.flatMap_append, flatMap_trees_filter, List.flatMap_cons,
      trees_eq all.1, List.append_assoc, List.append_assoc, List.singleton_append]
    exact (List.perm_middle.trans rest).append_left _

theorem Low.perm_trees (h : Low n row) : (rowsUp n row).Perm (row.flatMap trees) := by
  induction n generalizing row with
  | zero =>
    obtain rfl := h.eq_nil
    rfl
  | succ n ih =>
    exact ((ih h.next).append_right row).trans (perm_nextRow fun u mem => (h u mem).1)

theorem Low.bottomUp (h : Low n row) : BottomUp (rowsUp n row) := by
  induction n generalizing row with
  | zero => simp [BottomUp, rowsUp]
  | succ n ih =>
    refine (ih h.next).append ?_
    intro u mem c child tree
    have lower : c ∈ nextRow row := mem_nextRow.mpr ⟨u, mem, child, tree⟩
    cases n with
    | zero =>
      rw [h.next.eq_nil] at lower
      simp at lower
    | succ n => exact List.mem_append_right _ lower

theorem Low.nextRow_rowsUp_append (h : Low n row) : nextRow (rowsUp n row) ++ row = rowsUp n row := by
  have more : rowsUp (n + 1) row = level n row ++ rowsUp n row := by
    rw [rowsUp_eq_levels, rowsUp_eq_levels, List.range_succ, List.reverse_concat, List.flatMap_cons]
  rw [nextRow_rowsUp, ← rowsUp, more, h.level_eq_nil (Nat.le_refl n), List.nil_append]

theorem Low.of_pairwise {R : Value → Value → Prop} (h : Low n row) (all : (rowsUp n row).Pairwise R)
    (less : e < d) (upper : w ∈ level e row) (lower : c ∈ level d row) : R c w := by
  induction n generalizing row d e with
  | zero =>
    rw [h.level_eq_nil (Nat.zero_le d)] at lower
    simp at lower
  | succ n ih =>
    rw [rowsUp, List.pairwise_append] at all
    obtain ⟨d, rfl⟩ : ∃ d', d = d' + 1 := ⟨d - 1, by omega⟩
    cases e with
    | zero =>
      refine all.2.2 c (mem_rowsUp.mpr ⟨d, ?_, lower⟩) w upper
      by_contra deep
      rw [level, h.next.level_eq_nil (by omega)] at lower
      simp at lower
    | succ e => exact ih h.next all.1 (by omega) upper lower

end Value

end AxisLang
