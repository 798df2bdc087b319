import Mathlib.Data.List.Nodup
import AxisLang.Handler.Transform
import AxisLang.Tree.Revision

/-! Identities of trees. A tree with an identity is an object that may stand in several places. Here
stands what is in a value apart from identities, which identities are in it, and that numbering the
trees of a value adds identities that are not in use, each once. -/
namespace AxisLang

open Transformer (postorder postorderAll)

namespace Value

mutual

theorem nested_induction {P : Value → Prop}
    (tree : ∀ i l cs s, (∀ c ∈ cs, P c) → P (.tree i l cs s))
    (list : ∀ xs, (∀ x ∈ xs, P x) → P (.list xs))
    (other : ∀ v, v.isTree = false → (∀ xs, v ≠ .list xs) → P v) (v : Value) : P v := by
  cases v with
  | tree i l cs s => exact tree i l cs s (nested_inductionAll tree list other cs)
  | list xs => exact list xs (nested_inductionAll tree list other xs)
  | _ => exact other _ rfl (fun _ => Value.noConfusion)

theorem nested_inductionAll {P : Value → Prop}
    (tree : ∀ i l cs s, (∀ c ∈ cs, P c) → P (.tree i l cs s))
    (list : ∀ xs, (∀ x ∈ xs, P x) → P (.list xs))
    (other : ∀ v, v.isTree = false → (∀ xs, v ≠ .list xs) → P v) (vs : List Value) : ∀ v ∈ vs, P v := by
  cases vs with
  | nil => simp
  | cons v vs =>
    exact List.forall_mem_cons.mpr
      ⟨nested_induction tree list other v, nested_inductionAll tree list other vs⟩

end

mutual

def erased : Value → Value
  | .tree _ l cs s => .tree none l (erasedAll cs) s
  | .list xs => .list (erasedAll xs)
  | v => v

def erasedAll : List Value → List Value
  | [] => []
  | v :: vs => erased v :: erasedAll vs

end

mutual

/-- The identities in a value, one for each place where a tree with an identity stands. -/
def ids : Value → List Nat
  | .tree i _ cs _ => i.toList ++ idsAll cs
  | .list xs => idsAll xs
  | _ => []

def idsAll : List Value → List Nat
  | [] => []
  | v :: vs => ids v ++ idsAll vs

end

/-- The identities of the subtrees: of the trees that can be reached without going through a list. -/
def subtreeIds (v : Value) : List Nat :=
  (postorder v).filterMap id?

/-- No subtree stands in two places. -/
def Unshared (v : Value) : Prop :=
  ∀ i ∈ v.subtreeIds, v.ids.count i = 1

theorem erasedAll_eq_map (vs : List Value) : erasedAll vs = vs.map erased := by
  induction vs with
  | nil => rfl
  | cons v vs ih => rw [erasedAll, ih, List.map_cons]

theorem idsAll_eq_flatMap (vs : List Value) : idsAll vs = vs.flatMap ids := by
  induction vs with
  | nil => rfl
  | cons v vs ih => rw [idsAll, ih, List.flatMap_cons]

theorem postorderAll_eq_flatMap (vs : List Value) : postorderAll vs = vs.flatMap postorder := by
  induction vs with
  | nil => rfl
  | cons v vs ih => rw [postorderAll, ih, List.flatMap_cons]

section Parts

variable (i : Option Nat) (l : Label) (cs xs : List Value) (s : Span)

@[simp] theorem erased_tree : (Value.tree i l cs s).erased = .tree none l (cs.map erased) s := by
  rw [erased, erasedAll_eq_map]

@[simp] theorem erased_list : (Value.list xs).erased = .list (xs.map erased) := by
  rw [erased, erasedAll_eq_map]

@[simp] theorem ids_tree : (Value.tree i l cs s).ids = i.toList ++ cs.flatMap ids := by
  rw [ids, idsAll_eq_flatMap]

@[simp] theorem ids_list : (Value.list xs).ids = xs.flatMap ids := by
  rw [ids, idsAll_eq_flatMap]

@[simp] theorem postorder_tree :
    postorder (.tree i l cs s) = cs.flatMap postorder ++ [.tree i l cs s] := by
  rw [postorder, postorderAll_eq_flatMap]

@[simp] theorem subtreeIds_tree :
    (Value.tree i l cs s).subtreeIds = cs.flatMap subtreeIds ++ i.toList := by
  rw [subtreeIds, postorder_tree, List.filterMap_append, List.filterMap_flatMap]
  cases i <;> rfl

end Parts

theorem erased_of_leaf {v : Value} (tree : v.isTree = false) (list : ∀ xs, v ≠ .list xs) :
    v.erased = v := by
  cases v with
  | tree => cases tree
  | list xs => exact absurd rfl (list xs)
  | _ => rfl

theorem erased_erased (v : Value) : v.erased.erased = v.erased := by
  have held {vs : List Value} (ih : ∀ c ∈ vs, c.erased.erased = c.erased) :
      (vs.map erased).map erased = vs.map erased := by
    rw [List.map_map]
    exact List.map_congr_left ih
  induction v using nested_induction with
  | tree i l cs s ih => rw [erased_tree, erased_tree, held ih]
  | list xs ih => rw [erased_list, erased_list, held ih]
  | other v tree list => rw [erased_of_leaf tree list, erased_of_leaf tree list]

theorem sameAll_of_erased {vs ws : List Value} (ih : ∀ v ∈ vs, ∀ w, v.erased = w.erased → v.same w = true)
    (h : vs.map erased = ws.map erased) : sameAll vs ws = true := by
  induction vs generalizing ws with
  | nil =>
    obtain rfl := List.map_eq_nil_iff.mp h.symm
    rfl
  | cons v vs rest =>
    cases ws with
    | nil => simp at h
    | cons w ws =>
      rw [List.forall_mem_cons] at ih
      obtain ⟨first, later⟩ := List.cons.inj h
      rw [sameAll, ih.1 w first, rest ih.2 later]
      rfl

theorem same_of_erased {v w : Value} (h : v.erased = w.erased) : v.same w = true := by
  induction v using nested_induction generalizing w with
  | tree id l cs s ih =>
    cases w with
    | tree id' m ds s' =>
      rw [erased_tree, erased_tree] at h
      injection h with _ labels children _
      rw [same, labels, sameAll_of_erased ih children]
      simp
    | list ys => simp at h
    | _ => simp [erased] at h
  | list xs ih =>
    cases w with
    | list ys =>
      rw [erased_list, erased_list] at h
      rw [same]
      exact sameAll_of_erased ih (Value.list.inj h)
    | tree => simp at h
    | _ => simp [erased] at h
  | other v tree list =>
    have leaf : w = v := by
      cases w with
      | tree => rw [erased_of_leaf tree list] at h; subst h; cases tree
      | list ys => rw [erased_of_leaf tree list] at h; exact absurd h (list _)
      | _ => rw [erased_of_leaf tree list] at h; exact h.symm
    subst leaf
    cases w with
    | tree => cases tree
    | list ys => exact absurd rfl (list ys)
    | _ => simp [same, Token.same]

theorem postorder_of_not_tree {v : Value} (h : v.isTree = false) : postorder v = [v] := by
  cases v with
  | tree => cases h
  | _ => rfl

theorem mem_postorder_of_child {i : Option Nat} {l : Label} {cs : List Value} {s : Span} {c u : Value}
    (among : c ∈ cs) (mem : u ∈ postorder c) : u ∈ postorder (.tree i l cs s) := by
  rw [postorder_tree]
  exact List.mem_append_left _ (List.mem_flatMap.mpr ⟨c, among, mem⟩)

theorem subtreeIds_of_not_tree {v : Value} (h : v.isTree = false) : v.subtreeIds = [] := by
  rw [subtreeIds, postorder_of_not_tree h]
  cases v with
  | tree => cases h
  | _ => rfl

theorem ids_of_leaf {v : Value} (tree : v.isTree = false) (list : ∀ xs, v ≠ .list xs) : v.ids = [] := by
  cases v with
  | tree => cases tree
  | list xs => exact absurd rfl (list xs)
  | _ => rfl

theorem count_flatMap_add {f g h : Value → List Nat} {i : Nat} {cs : List Value}
    (each : ∀ c ∈ cs, (f c).count i = (g c).count i + (h c).count i) :
    (cs.flatMap f).count i = (cs.flatMap g).count i + (cs.flatMap h).count i := by
  induction cs with
  | nil => rfl
  | cons c cs ih =>
    rw [List.forall_mem_cons] at each
    have rest := ih each.2
    have first := each.1
    simp only [List.flatMap_cons, List.count_append]
    omega

/-- The identities hidden in values that are no trees. -/
def hiddenIds (v : Value) : List Nat :=
  ((postorder v).filter fun w => !w.isTree).flatMap ids

@[simp] theorem hiddenIds_tree (i : Option Nat) (l : Label) (cs : List Value) (s : Span) :
    (Value.tree i l cs s).hiddenIds = cs.flatMap hiddenIds := by
  rw [hiddenIds, postorder_tree, List.filter_append, List.flatMap_append, List.filter_flatMap,
    List.flatMap_assoc]
  exact List.append_nil _

theorem hiddenIds_of_not_tree {v : Value} (h : v.isTree = false) : v.hiddenIds = v.ids := by
  simp [hiddenIds, postorder_of_not_tree h, h]

theorem count_ids (v : Value) (i : Nat) :
    v.ids.count i = v.subtreeIds.count i + v.hiddenIds.count i := by
  have leaf {w : Value} (h : w.isTree = false) :
      w.ids.count i = w.subtreeIds.count i + w.hiddenIds.count i := by
    simp [subtreeIds_of_not_tree h, hiddenIds_of_not_tree h]
  induction v using nested_induction with
  | tree j l cs s ih =>
    have all := count_flatMap_add ih
    simp only [ids_tree, subtreeIds_tree, hiddenIds_tree, List.count_append]
    omega
  | list xs ih => exact leaf rfl
  | other v tree list => exact leaf tree

theorem idBound_le_of_mem {v : Value} {vs : List Value} (h : v ∈ vs) : v.idBound ≤ idBoundAll vs := by
  induction vs with
  | nil => simp at h
  | cons w vs ih =>
    rw [idBoundAll]
    rcases List.mem_cons.mp h with rfl | h
    · exact Nat.le_max_left _ _
    · exact Nat.le_trans (ih h) (Nat.le_max_right _ _)

theorem lt_idBound {v : Value} {i : Nat} (h : i ∈ v.ids) : i < v.idBound := by
  have held {vs : List Value} (ih : ∀ c ∈ vs, i ∈ c.ids → i < c.idBound)
      (mem : i ∈ vs.flatMap ids) : i < idBoundAll vs := by
    obtain ⟨c, among, mem⟩ := List.mem_flatMap.mp mem
    exact Nat.lt_of_lt_of_le (ih c among mem) (idBound_le_of_mem among)
  induction v using nested_induction with
  | tree j l cs s ih =>
    rw [ids_tree, List.mem_append, Option.mem_toList] at h
    rw [idBound]
    rcases h with rfl | h
    · exact Nat.lt_of_lt_of_le (Nat.lt_succ_self i) (Nat.le_max_left _ _)
    · exact Nat.lt_of_lt_of_le (held ih h) (Nat.le_max_right _ _)
  | list xs ih =>
    rw [ids_list] at h
    exact held ih h
  | other v tree list => simp [ids_of_leaf tree list] at h

/-- Numbering the trees of some values from `n` on, up to `m`. Identities from `n` on are new and used
once, the others stay as they are. -/
structure Numbered (n m : Nat) (vs vs' : List Value) : Prop where
  le : n ≤ m
  erased : vs'.map Value.erased = vs.map Value.erased
  old : ∀ i < n, (vs'.flatMap ids).count i = (vs.flatMap ids).count i
  stays : ∀ i < n, i ∈ vs'.flatMap subtreeIds → i ∈ vs.flatMap subtreeIds
  once : (∀ i ∈ vs.flatMap ids, i < n) → ∀ i, n ≤ i → (vs'.flatMap ids).count i ≤ 1
  bound : (∀ i ∈ vs.flatMap ids, i < n) → ∀ i ∈ vs'.flatMap ids, i < m
  named : ∀ u ∈ vs'.flatMap postorder, u.isTree = true → ∃ i, u.id? = some i
  again : ∀ k, identifiedAll k vs' = (vs', k)

namespace Numbered

variable {n k m : Nat} {v v' : Value} {vs vs' cs cs' xs xs' : List Value} {l : Label} {s : Span}

theorem nil : Numbered n n [] [] := by
  constructor <;> simp [identifiedAll]

theorem cons (first : Numbered n k [v] [v']) (rest : Numbered k m vs vs') :
    Numbered n m (v :: vs) (v' :: vs') where
  le := Nat.le_trans first.le rest.le
  erased := by
    have head := first.erased
    simp only [List.map_cons, List.map_nil, List.cons.injEq, and_true] at head ⊢
    exact ⟨head, rest.erased⟩
  old := by
    intro i small
    have head := first.old i small
    have tail := rest.old i (Nat.lt_of_lt_of_le small first.le)
    simp only [List.flatMap_cons, List.flatMap_nil, List.append_nil, List.count_append] at head ⊢
    omega
  stays := by
    intro i small
    have head := first.stays i small
    have tail := rest.stays i (Nat.lt_of_lt_of_le small first.le)
    simp only [List.flatMap_cons, List.flatMap_nil, List.append_nil, List.mem_append] at head ⊢
    exact Or.imp head tail
  once := by
    intro below i large
    have le := first.le
    simp only [List.flatMap_cons, List.mem_append, or_imp, forall_and] at below
    have inner : ∀ j ∈ [v].flatMap ids, j < n := by simpa using below.1
    have outer : ∀ j ∈ vs.flatMap ids, j < k := fun j mem => Nat.lt_of_lt_of_le (below.2 j mem) le
    have head := first.once inner i large
    simp only [List.flatMap_cons, List.flatMap_nil, List.append_nil, List.count_append] at head ⊢
    by_cases middle : i < k
    · -- the number was given to the first value, and the others had it not before
      have absent : i ∉ vs.flatMap ids := fun mem => absurd (below.2 i mem) (by omega)
      rw [rest.old i middle, List.count_eq_zero_of_not_mem absent]
      exact head
    · have absent : i ∉ v'.ids := fun mem => middle (first.bound inner i (by simpa using mem))
      rw [List.count_eq_zero_of_not_mem absent, Nat.zero_add]
      exact rest.once outer i (by omega)
  bound := by
    intro below i mem
    simp only [List.flatMap_cons, List.mem_append, or_imp, forall_and] at below mem
    rcases mem with mem | mem
    · exact Nat.lt_of_lt_of_le (first.bound (by simpa using below.1) i (by simpa using mem)) rest.le
    · exact rest.bound (fun j among => Nat.lt_of_lt_of_le (below.2 j among) first.le) i mem
  named := by
    have head := first.named
    have tail := rest.named
    simp only [List.flatMap_cons, List.flatMap_nil, List.append_nil, List.mem_append] at head ⊢
    intro u mem
    exact mem.elim (head u) (tail u)
  again := by
    intro j
    have single := Prod.mk.inj (first.again j)
    have same : identified j v' = (v', j) := Prod.ext (List.cons.inj single.1).1 single.2
    simp only [identifiedAll, same, rest.again]

theorem tree (i : Nat) (h : Numbered n m cs cs') :
    Numbered n m [.tree (some i) l cs s] [.tree (some i) l cs' s] where
  le := h.le
  erased := by simp [h.erased]
  old := by
    intro j small
    have inside := h.old j small
    simp only [List.flatMap_singleton, ids_tree, List.count_append]
    omega
  stays := by
    intro j small
    have inside := h.stays j small
    simp only [List.flatMap_singleton, subtreeIds_tree, List.mem_append]
    exact Or.imp inside id
  once := by
    intro below j large
    simp only [List.flatMap_singleton, ids_tree, List.mem_append, or_imp,
      forall_and, Option.toList_some, List.mem_singleton, forall_eq] at below ⊢
    have inside := h.once below.2 j large
    have other : j ≠ i := by omega
    rw [List.count_append, List.count_singleton, beq_false_of_ne other.symm]
    simpa using inside
  bound := by
    intro below j mem
    simp only [List.flatMap_singleton, ids_tree, List.mem_append, or_imp,
      forall_and, Option.toList_some, List.mem_singleton, forall_eq] at below mem
    rcases mem with rfl | mem
    · exact Nat.lt_of_lt_of_le below.1 h.le
    · exact h.bound below.2 j mem
  named := by
    intro u mem isTree
    simp only [List.flatMap_singleton, postorder_tree, List.mem_append,
      List.mem_singleton] at mem
    rcases mem with mem | rfl
    · exact h.named u mem isTree
    · exact ⟨i, rfl⟩
  again := by
    intro j
    simp only [identifiedAll, identified, h.again]

theorem newTree (h : Numbered (n + 1) m cs cs') :
    Numbered n m [.tree none l cs s] [.tree (some n) l cs' s] where
  le := by
    have le := h.le
    omega
  erased := by simp [h.erased]
  old := by
    intro j small
    have inside := h.old j (by omega)
    have other : n ≠ j := by omega
    simp only [List.flatMap_singleton, ids_tree, List.count_append]
    simp [inside, other]
  stays := by
    intro j small
    have inside := h.stays j (by omega)
    simp only [List.flatMap_singleton, subtreeIds_tree, List.mem_append]
    refine Or.imp inside ?_
    intro mem
    simp only [Option.toList_some, List.mem_singleton] at mem
    omega
  once := by
    intro below j large
    simp only [List.flatMap_singleton, ids_tree, Option.toList_none,
      List.nil_append] at below
    have below' : ∀ i ∈ cs.flatMap ids, i < n + 1 := fun i mem => Nat.lt_succ_of_lt (below i mem)
    simp only [List.flatMap_singleton, ids_tree, Option.toList_some,
      List.count_append, List.count_singleton]
    by_cases first : n = j
    · subst first
      have absent : n ∉ cs.flatMap ids := fun mem => absurd (below n mem) (by omega)
      rw [h.old n (by omega), List.count_eq_zero_of_not_mem absent]
      simp
    · have inside := h.once below' j (by omega)
      simpa [first] using inside
  bound := by
    intro below j mem
    have le := h.le
    simp only [List.flatMap_singleton, ids_tree, Option.toList_none,
      List.nil_append] at below
    simp only [List.flatMap_singleton, ids_tree, Option.toList_some,
      List.mem_append, List.mem_singleton] at mem
    rcases mem with rfl | mem
    · omega
    · exact h.bound (fun i among => Nat.lt_succ_of_lt (below i among)) j mem
  named := by
    intro u mem isTree
    simp only [List.flatMap_singleton, postorder_tree, List.mem_append,
      List.mem_singleton] at mem
    rcases mem with mem | rfl
    · exact h.named u mem isTree
    · exact ⟨n, rfl⟩
  again := by
    intro j
    simp only [identifiedAll, identified, h.again]

theorem list (h : Numbered n m xs xs') : Numbered n m [.list xs] [.list xs'] where
  le := h.le
  erased := by simp [h.erased]
  old := by simpa using h.old
  stays := by simp [subtreeIds_of_not_tree (v := .list xs') rfl]
  once := by simpa using h.once
  bound := by simpa using h.bound
  named := by
    intro u mem isTree
    obtain rfl : u = .list xs' := by simpa [postorder_of_not_tree (v := .list xs') rfl] using mem
    cases isTree
  again := by
    intro j
    simp only [identifiedAll, identified, h.again]

theorem leaf (tree : v.isTree = false) (list : ∀ xs, v ≠ .list xs) : Numbered n n [v] [v] where
  le := Nat.le_refl n
  erased := rfl
  old := by simp
  stays := by simp
  once := by simp [ids_of_leaf tree list]
  bound := by simp [ids_of_leaf tree list]
  named := by
    intro u mem isTree
    obtain rfl : u = v := by simpa [postorder_of_not_tree tree] using mem
    rw [tree] at isTree
    cases isTree
  again := by
    intro j
    cases v with
    | tree => cases tree
    | list xs => exact absurd rfl (list xs)
    | _ => rfl

end Numbered

mutual

theorem numbered (n : Nat) (v : Value) : Numbered n (v.identified n).2 [v] [(v.identified n).1] := by
  cases v with
  | tree id l cs s =>
    cases id with
    | none => exact .newTree (numberedAll (n + 1) cs)
    | some i => exact .tree i (numberedAll n cs)
  | list xs => exact .list (numberedAll n xs)
  | _ => exact .leaf rfl fun _ => Value.noConfusion

theorem numberedAll (n : Nat) (vs : List Value) :
    Numbered n (identifiedAll n vs).2 vs (identifiedAll n vs).1 := by
  cases vs with
  | nil => exact .nil
  | cons v vs => exact .cons (numbered n v) (numberedAll _ vs)

end

section Identified

variable (v : Value)

def fresh (v : Value) : Value := (v.identified v.idBound).1

theorem numbered_fresh : Numbered v.idBound (v.identified v.idBound).2 [v] [v.fresh] :=
  numbered _ v

variable {v}

theorem isTree_identified (n : Nat) : (v.identified n).1.isTree = v.isTree := by
  cases v with
  | tree id l cs s => cases id <;> rfl
  | _ => rfl

theorem isTree_fresh : v.fresh.isTree = v.isTree :=
  isTree_identified _

theorem erased_fresh : v.fresh.erased = v.erased := by
  simpa using (numbered_fresh v).erased

theorem identified_fresh (k : Nat) : v.fresh.identified k = (v.fresh, k) := by
  have single := Prod.mk.inj ((numbered_fresh v).again k)
  exact Prod.ext (List.cons.inj single.1).1 single.2

theorem lt_of_mem_fresh {i : Nat} (h : i ∈ v.fresh.subtreeIds) : i < (v.identified v.idBound).2 := by
  have split := count_ids v.fresh i
  have pos := List.count_pos_iff.mpr h
  have mem : i ∈ v.fresh.ids := List.count_pos_iff.mp (by omega)
  refine (numbered_fresh v).bound ?_ i (by simpa using mem)
  simpa using fun j mem => lt_idBound mem

theorem exists_id_of_mem_fresh {u : Value} (mem : u ∈ postorder v.fresh) (tree : u.isTree = true) :
    ∃ i, u.id? = some i :=
  (numbered_fresh v).named u (by simpa using mem) tree

theorem Unshared.fresh (h : v.Unshared) : v.fresh.Unshared := by
  intro i mem
  have numbered := numbered_fresh v
  have below : ∀ j ∈ [v].flatMap ids, j < v.idBound := by simpa using fun j mem => lt_idBound mem
  by_cases old : i < v.idBound
  · have count := numbered.old i old
    have stays := numbered.stays i old
    simp only [List.flatMap_singleton] at count stays
    rw [count]
    exact h i (stays mem)
  · have count := numbered.once below i (by omega)
    simp only [List.flatMap_singleton] at count
    have split := count_ids v.fresh i
    have pos := List.count_pos_iff.mpr mem
    omega

theorem Unshared.nodup (h : v.Unshared) : v.subtreeIds.Nodup := by
  rw [List.nodup_iff_count_le_one]
  intro i
  by_cases mem : i ∈ v.subtreeIds
  · have split := count_ids v i
    have once := h i mem
    omega
  · rw [List.count_eq_zero_of_not_mem mem]
    omega

theorem Unshared.notMem_hidden (h : v.Unshared) {i : Nat} (mem : i ∈ v.subtreeIds) :
    i ∉ v.hiddenIds := by
  intro hidden
  have split := count_ids v i
  have once := h i mem
  have first := List.count_pos_iff.mpr mem
  have second := List.count_pos_iff.mpr hidden
  omega

end Identified

end Value

end AxisLang
