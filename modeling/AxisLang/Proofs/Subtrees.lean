import AxisLang.Proofs.Rows
import AxisLang.Tree.Subtrees

/-! The walk through the subtrees of a tree. It takes the tree row by row. An object that stands in several
places is met again, but only in its own row if all its places are among the children of one parent; so no
tree is found before one that holds it, and what the walk lists is the rows from the lowest up, each object
once. -/
namespace AxisLang

open Transformer (postorder)

namespace Value

variable {u v w c : Value} {us vs found row : List Value} {d e n : Nat}

section Objects

/-- Two places hold one object. -/
def SameObject (u v : Value) : Prop :=
  ∃ i, u.id? = some i ∧ v.id? = some i

instance (u v : Value) : Decidable (SameObject u v) :=
  decidable_of_iff (u.id?.isSome = true ∧ u.id? = v.id?) (by
    unfold SameObject
    cases u.id? <;> simp [eq_comm])

theorem SameObject.symm (h : SameObject u v) : SameObject v u := by
  obtain ⟨i, left, right⟩ := h
  exact ⟨i, right, left⟩

theorem seenIn_iff : seenIn found v = true ↔ ∃ w ∈ found, SameObject w v := by
  unfold seenIn SameObject
  cases v.id? <;> simp

/-- What is found of some places on top of what was found before. Places further behind come first, and a
place of an object that was found is passed over. -/
def collect (found : List Value) : List Value → List Value
  | [] => found
  | v :: vs => if seenIn (collect found vs) v then collect found vs else v :: collect found vs

theorem collect_append (found us vs : List Value) :
    collect found (us ++ vs) = collect (collect found vs) us := by
  induction us with
  | nil => rfl
  | cons u us ih => simp only [List.cons_append, collect, ih]

theorem mem_of_mem_collect (h : u ∈ collect found vs) : u ∈ vs ∨ u ∈ found := by
  induction vs with
  | nil => exact .inr h
  | cons v vs ih =>
    rw [collect] at h
    split at h
    · exact (ih h).imp_left (List.mem_cons_of_mem v)
    · rcases List.mem_cons.mp h with rfl | h
      · exact .inl List.mem_cons_self
      · exact (ih h).imp_left (List.mem_cons_of_mem v)

theorem exists_collect (found vs : List Value) :
    ∃ new, collect found vs = new ++ found ∧
      ∀ u ∈ vs, u ∈ new ∨ ∃ w ∈ new ++ found, SameObject w u := by
  induction vs with
  | nil => exact ⟨[], rfl, by simp⟩
  | cons v vs ih =>
    obtain ⟨new, eq, each⟩ := ih
    rw [collect, eq]
    split
    · rename_i seen
      exact ⟨new, rfl, List.forall_mem_cons.mpr ⟨.inr (seenIn_iff.mp seen), each⟩⟩
    · refine ⟨v :: new, rfl, List.forall_mem_cons.mpr ⟨.inl List.mem_cons_self, ?_⟩⟩
      intro u mem
      refine (each u mem).imp (List.mem_cons_of_mem v) ?_
      rintro ⟨w, among, same⟩
      exact ⟨w, List.mem_cons_of_mem v among, same⟩

theorem nodup_collect (vs : List Value) : ((collect [] vs).filterMap id?).Nodup := by
  induction vs with
  | nil => exact List.nodup_nil
  | cons v vs ih =>
    rw [collect]
    split
    · exact ih
    · rename_i unseen
      cases id : v.id? with
      | none => rw [List.filterMap_cons_none id]; exact ih
      | some i =>
        rw [List.filterMap_cons_some id, List.nodup_cons]
        refine ⟨?_, ih⟩
        intro mem
        obtain ⟨w, among, own⟩ := List.mem_filterMap.mp mem
        exact unseen (seenIn_iff.mpr ⟨w, among, i, own, id⟩)

theorem collect_unnamed (vs : List Value) :
    (collect [] vs).filter (fun u => u.id?.isNone) = vs.filter fun u => u.id?.isNone := by
  induction vs with
  | nil => rfl
  | cons v vs ih =>
    rw [collect]
    split
    · rename_i seen
      obtain ⟨w, _, i, _, own⟩ := seenIn_iff.mp seen
      rw [List.filter_cons_of_neg (by simp [own]), ih]
    · rw [List.filter_cons, List.filter_cons, ih]

theorem collect_eq_self (distinct : vs.Pairwise fun u w => ¬ SameObject u w) : collect [] vs = vs := by
  induction vs with
  | nil => rfl
  | cons v vs ih =>
    rw [List.pairwise_cons] at distinct
    have unseen : ¬ seenIn vs v = true := by
      rw [seenIn_iff]
      rintro ⟨w, mem, same⟩
      exact distinct.1 w mem same.symm
    rw [collect, ih distinct.2, if_neg unseen]

theorem collect_split {before after : List Value} (h : collect [] vs = before ++ v :: after) :
    ∃ front back, vs = front ++ v :: back ∧ collect [] back = after ∧
      collect (v :: after) front = before ++ v :: after := by
  induction vs generalizing before with
  | nil => simp [collect] at h
  | cons u vs ih =>
    rw [collect] at h
    split at h
    · rename_i seen
      obtain ⟨front, back, rfl, behind, ahead⟩ := ih h
      refine ⟨u :: front, back, rfl, behind, ?_⟩
      rw [collect, ahead, ← h, if_pos seen]
    · rename_i unseen
      cases before with
      | nil =>
        obtain ⟨rfl, rest⟩ := List.cons.inj h
        exact ⟨[], vs, rfl, rest, rfl⟩
      | cons x before =>
        rw [List.cons_append] at h
        obtain ⟨rfl, rest⟩ := List.cons.inj h
        obtain ⟨front, back, rfl, behind, ahead⟩ := ih rest
        refine ⟨u :: front, back, rfl, behind, ?_⟩
        rw [collect, ahead, ← rest, if_neg unseen]
        exact h

theorem BottomUp.collect (h : BottomUp vs) (alike : ∀ u ∈ vs, ∀ w ∈ vs, SameObject u w → u = w)
    (own : ∀ u ∈ vs, ∀ c ∈ u.children, ¬ SameObject c u)
    (later : vs.Pairwise fun u w => ∀ c ∈ u.children, ¬ SameObject c w) : BottomUp (collect [] vs) := by
  intro before x after split c child tree
  obtain ⟨front, back, rfl, rfl, ahead⟩ := collect_split split
  obtain ⟨new, eq, each⟩ := exists_collect (x :: Value.collect [] back) front
  rw [eq] at ahead
  obtain rfl := List.append_cancel_right ahead
  have first := h front x back rfl c child tree
  rcases each c first with mem | ⟨w, mem, same⟩
  · exact mem
  · rcases List.mem_append.mp mem with mem | mem
    · -- the object was collected at another place, which holds the same tree
      have place : w ∈ front ++ x :: back := by
        have collected : w ∈ Value.collect [] (front ++ x :: back) := by
          rw [split]
          exact List.mem_append_left _ mem
        exact (mem_of_mem_collect collected).resolve_right (by simp)
      rw [← alike w place c (List.mem_append_left _ first) same]
      exact mem
    · rw [List.pairwise_append, List.pairwise_cons] at later
      rcases List.mem_cons.mp mem with rfl | mem
      · exact absurd same.symm (own w (by simp) c child)
      · have behind := (mem_of_mem_collect mem).resolve_right (by simp)
        exact absurd same.symm (later.2.1.1 w behind c child)

end Objects

section Walk

theorem treesBackwards_eq (v : Value) : v.treesBackwards = (v.children.filter isTree).reverse := by
  rw [treesBackwards, List.filter_reverse]

theorem walkLevels_row (fuel : Nat) (found us later : List Value)
    (new : ∀ c ∈ us.flatMap treesBackwards, ∀ w, w ∈ us ∨ w ∈ found → ¬ SameObject w c) :
    walkLevels (us.length + fuel) found (us ++ later) =
      walkLevels fuel (collect found us.reverse) (later ++ us.flatMap treesBackwards) := by
  induction us generalizing found later with
  | nil => simp [collect]
  | cons u us ih =>
    have added : (if seenIn found u then found else u :: found) = collect found [u] := rfl
    have among {w : Value} (mem : w ∈ collect found [u]) : w ∈ u :: us ∨ w ∈ found := by
      refine (mem_of_mem_collect mem).imp_left ?_
      intro single
      rw [List.mem_singleton.mp single]
      exact List.mem_cons_self
    -- none of the children was found before, so all of them go to the waiting trees
    have all : (u.treesBackwards.filter fun c => !seenIn (collect found [u]) c) = u.treesBackwards := by
      rw [List.filter_eq_self]
      intro c mem
      rw [Bool.not_eq_true', ← Bool.not_eq_true, seenIn_iff]
      rintro ⟨w, seen, same⟩
      exact new c (List.mem_append_left _ mem) w (among seen) same
    have rest := ih (collect found [u]) (later ++ u.treesBackwards) fun c mem w place =>
      new c (List.mem_append_right _ mem) w
        (place.elim (fun here => .inl (List.mem_cons_of_mem u here)) among)
    have steps : (u :: us).length + fuel = us.length + fuel + 1 := by
      rw [List.length_cons]
      omega
    rw [steps, List.cons_append, walkLevels]
    simp only [added, all]
    rw [List.append_assoc, rest, List.reverse_cons, collect_append, List.flatMap_cons, List.append_assoc]

/-- No object stands in two rows, or was found before and stands below the row. -/
structure Layered (found row : List Value) : Prop where
  rows : ∀ e d, e < d → ∀ w ∈ level e row, ∀ c ∈ level d row, ¬ SameObject w c
  found : ∀ d, ∀ w ∈ found, ∀ c ∈ level (d + 1) row, ¬ SameObject w c

theorem Layered.next (h : Layered found row) : Layered (collect found row) (nextRow row) where
  rows e d less := h.rows (e + 1) (d + 1) (by omega)
  found d w mem c lower := by
    rcases mem_of_mem_collect mem with mem | mem
    · exact h.rows 0 (d + 2) (by omega) w mem c lower
    · exact h.found (d + 1) w mem c lower

theorem Layered.walkLevels_eq (h : Layered found row) (low : Low n row) {fuel : Nat}
    (enough : (rowsUp n row).length ≤ fuel) :
    walkLevels fuel found row.reverse = collect found (rowsUp n row) := by
  induction n generalizing found row fuel with
  | zero =>
    obtain rfl := low.eq_nil
    cases fuel <;> rfl
  | succ n ih =>
    have backwards : row.reverse.flatMap treesBackwards = (nextRow row).reverse := by
      rw [nextRow, List.reverse_flatMap]
      exact congrArg (List.flatMap · row.reverse) (funext treesBackwards_eq)
    have new : ∀ c ∈ row.reverse.flatMap treesBackwards, ∀ w, w ∈ row.reverse ∨ w ∈ found →
        ¬ SameObject w c := by
      intro c mem w place
      rw [backwards, List.mem_reverse] at mem
      rcases place with place | place
      · exact h.rows 0 1 (by omega) w (List.mem_reverse.mp place) c mem
      · exact h.found 0 w place c mem
    rw [rowsUp, List.length_append] at enough
    obtain ⟨rest, rfl⟩ : ∃ rest, fuel = row.reverse.length + rest :=
      ⟨fuel - row.length, by rw [List.length_reverse]; omega⟩
    rw [List.length_reverse] at enough
    have walk := walkLevels_row rest found row.reverse [] new
    rw [List.append_nil, List.nil_append, List.reverse_reverse, backwards] at walk
    rw [walk, ih h.next low.next (by omega), rowsUp, collect_append]

theorem length_postorder_le (v : Value) : (postorder v).length ≤ v.size := by
  have leaf {w : Value} (h : w.isTree = false) : (postorder w).length ≤ w.size := by
    rw [postorder_of_not_tree h]
    cases w with
    | tree => cases h
    | _ => simp [size]
  induction v using nested_induction with
  | tree i l cs s ih =>
    have inner : (cs.flatMap postorder).length ≤ sizeAll cs := by
      induction cs with
      | nil => exact Nat.le_refl 0
      | cons c cs rest =>
        rw [List.forall_mem_cons] at ih
        have first := ih.1
        have later := rest ih.2
        rw [List.flatMap_cons, List.length_append, sizeAll]
        omega
    rw [postorder_tree, List.length_append, List.length_singleton, size]
    omega
  | list xs ih => exact leaf rfl
  | other w tree list => exact leaf tree

theorem rowsUp_perm_trees (tree : v.isTree = true) : (rowsUp v.height [v]).Perm v.trees := by
  simpa using (low_root tree).perm_trees

theorem isTree_of_id {i : Nat} (h : v.id? = some i) : v.isTree = true := by
  cases v with
  | tree => rfl
  | _ => cases h

theorem Layered.child_apart (h : Layered found row) (le : e ≤ d) (upper : w ∈ level e row)
    (lower : u ∈ level d row) (child : c ∈ u.children) : ¬ SameObject c w := by
  intro same
  obtain ⟨i, own, _⟩ := id same
  refine h.rows e (d + 1) (by omega) w upper c ?_ same.symm
  rw [level_succ]
  exact mem_nextRow.mpr ⟨u, lower, child, isTree_of_id own⟩

theorem Layered.pairwise_apart (h : Layered found row) (n : Nat) :
    (rowsUp n row).Pairwise fun u w => ∀ c ∈ u.children, ¬ SameObject c w := by
  induction n generalizing found row with
  | zero => exact .nil
  | succ n ih =>
    rw [rowsUp, List.pairwise_append]
    refine ⟨ih h.next, ?_, ?_⟩
    · refine List.pairwise_of_forall_mem_list ?_
      intro u lower w upper c child
      exact h.child_apart (Nat.le_refl 0) upper lower child
    · intro u mem w upper c child
      obtain ⟨d, _, lower⟩ := mem_rowsUp.mp mem
      exact h.child_apart (e := 0) (d := d + 1) (by omega) upper lower child

theorem Layered.subtrees_eq (h : Layered [] [v]) (tree : v.isTree = true) :
    v.subtrees = collect [] (rowsUp v.height [v]) := by
  refine h.walkLevels_eq (low_root tree) ?_
  have filtered := List.length_filter_le isTree (postorder v)
  have bound := length_postorder_le v
  rw [(rowsUp_perm_trees tree).length_eq, trees]
  omega

end Walk

section Sharing

/-- An object may stand in several places, but only among the children of one parent: places of one object
are alike, and places that hold one object among their children are places of one object. -/
structure SharedAmongSiblings (v : Value) : Prop where
  alike : v.trees.Pairwise fun u w => SameObject u w → u = w
  parent : v.trees.Pairwise fun u w => ∀ c ∈ u.children, ∀ d ∈ w.children, SameObject c d → SameObject u w

theorem height_add_le_of_mem_level (mem : u ∈ level d [v]) : u.height + d ≤ v.height := by
  induction d generalizing u with
  | zero =>
    obtain rfl := List.mem_singleton.mp mem
    exact Nat.le_refl _
  | succ d ih =>
    rw [level_succ] at mem
    obtain ⟨w, upper, child, _⟩ := mem_nextRow.mp mem
    have less := height_lt_of_child child
    have bound := ih upper
    omega

theorem pairwise_trees (distinct : v.subtreeIds.Nodup) : v.trees.Pairwise fun u w => ¬ SameObject u w := by
  rw [← filterMap_id_trees, List.Nodup, List.pairwise_filterMap] at distinct
  refine distinct.imp ?_
  rintro u w apart ⟨i, left, right⟩
  exact apart i left i right rfl

variable (tree : v.isTree = true)
include tree

theorem pairwise_rowsUp {R : Value → Value → Prop} (symm : ∀ u w, R u w → R w u)
    (all : v.trees.Pairwise R) : (rowsUp v.height [v]).Pairwise R :=
  ((rowsUp_perm_trees tree).pairwise_iff fun h => symm _ _ h).mpr all

theorem SharedAmongSiblings.alike_rowsUp (h : v.SharedAmongSiblings) :
    (rowsUp v.height [v]).Pairwise fun u w => SameObject u w → u = w :=
  pairwise_rowsUp tree (fun _ _ eq same => (eq same.symm).symm) h.alike

theorem SharedAmongSiblings.layered (h : v.SharedAmongSiblings) : Layered [] [v] where
  rows := by
    have alike := h.alike_rowsUp tree
    have parent := pairwise_rowsUp tree
      (fun u w up c among d child same => (up d child c among same.symm).symm) h.parent
    intro e
    induction e with
    | zero =>
      intro d less w upper c lower same
      obtain rfl := List.mem_singleton.mp upper
      obtain rfl := (low_root tree).of_pairwise alike less upper lower same.symm
      have bound := height_add_le_of_mem_level lower
      omega
    | succ e ih =>
      -- two rows further up stand the parents, which are then one object as well
      intro d less w upper c lower same
      obtain ⟨d, rfl⟩ : ∃ d', d = d' + 1 := ⟨d - 1, by omega⟩
      rw [level_succ] at upper lower
      obtain ⟨p, upper, child, _⟩ := mem_nextRow.mp upper
      obtain ⟨q, lower, child', _⟩ := mem_nextRow.mp lower
      have parents := (low_root tree).of_pairwise parent (by omega) upper lower c child' w child same.symm
      exact ih d (by omega) p upper q lower parents.symm
  found := by simp

theorem sharedAmongSiblings_of_nodup (distinct : v.subtreeIds.Nodup) : v.SharedAmongSiblings where
  alike := (pairwise_trees distinct).imp fun apart same => absurd same apart
  parent := by
    -- the children of all places are the rows but the first, and no identity recurs in them
    have places := rowsUp_perm_trees tree
    have ids := (places.filterMap id?).nodup_iff.mpr (by rw [filterMap_id_trees]; exact distinct)
    rw [← (low_root tree).nextRow_rowsUp_append, List.filterMap_append, nextRow, List.filterMap_flatMap] at ids
    have apart := (List.nodup_flatMap.mp (List.nodup_append.mp ids).1).2
    refine (places.pairwise_iff ?_).mp (apart.imp ?_)
    · intro u w up c among d child same
      exact (up d child c among same.symm).symm
    · rintro u w disjoint c among d child ⟨i, left, right⟩
      refine absurd (List.mem_filterMap.mpr ⟨d, ?_, right⟩) (disjoint (List.mem_filterMap.mpr ⟨c, ?_, left⟩))
      · exact List.mem_filter.mpr ⟨child, isTree_of_id right⟩
      · exact List.mem_filter.mpr ⟨among, isTree_of_id left⟩

theorem subtrees_eq_levels (distinct : v.subtreeIds.Nodup) :
    v.subtrees = (List.range v.height).reverse.flatMap fun d => level d [v] := by
  have apart := pairwise_rowsUp tree (fun u w no same => no same.symm) (pairwise_trees distinct)
  have layered := (sharedAmongSiblings_of_nodup tree distinct).layered tree
  rw [layered.subtrees_eq tree, collect_eq_self apart, rowsUp_eq_levels]

theorem subtrees_spec (distinct : v.subtreeIds.Nodup) : v.subtrees.Perm v.trees ∧ BottomUp v.subtrees := by
  rw [subtrees_eq_levels tree distinct, ← rowsUp_eq_levels]
  exact ⟨rowsUp_perm_trees tree, (low_root tree).bottomUp⟩

variable (h : v.SharedAmongSiblings)
include h

theorem SharedAmongSiblings.eq_of_sameObject (left : u ∈ rowsUp v.height [v])
    (right : w ∈ rowsUp v.height [v]) (same : SameObject u w) : u = w := by
  have alike := h.alike_rowsUp tree
  exact alike.forall_of_forall_of_flip (fun _ _ _ => rfl)
    (alike.imp fun eq same => (eq same.symm).symm) left right same

theorem SharedAmongSiblings.mem_subtrees (u : Value) : u ∈ v.subtrees ↔ u ∈ v.trees := by
  rw [(h.layered tree).subtrees_eq tree, ← (rowsUp_perm_trees tree).mem_iff]
  constructor
  · intro mem
    exact (mem_of_mem_collect mem).resolve_right (by simp)
  · intro mem
    obtain ⟨new, eq, each⟩ := exists_collect [] (rowsUp v.height [v])
    rw [List.append_nil] at eq each
    rw [eq]
    rcases each u mem with new | ⟨w, new, same⟩
    · exact new
    · have place : w ∈ rowsUp v.height [v] := (mem_of_mem_collect (eq ▸ new)).resolve_right (by simp)
      rw [← h.eq_of_sameObject tree place mem same]
      exact new

theorem SharedAmongSiblings.bottomUp : BottomUp v.subtrees := by
  have layered := h.layered tree
  rw [layered.subtrees_eq tree]
  refine (low_root tree).bottomUp.collect ?_ ?_ (layered.pairwise_apart _)
  · intro u left w right
    exact h.eq_of_sameObject tree left right
  · intro u mem c child
    obtain ⟨d, _, place⟩ := mem_rowsUp.mp mem
    exact layered.child_apart (Nat.le_refl d) place place child

end Sharing

end Value

end AxisLang
