import AxisLang.Handler.Task
import AxisLang.Proofs.Edits
import AxisLang.Proofs.Lists
import AxisLang.Proofs.Subtrees

/-! Visits of trees. A visitor calls a handler at each node of a list. If nothing recurs in the tree, going
through all subtrees and going down into children first call them at the same nodes, each after all trees in
it, though not in the same order: a handler changes its own node only, which is not looked at again. -/
namespace AxisLang

open Visitor (atAll)

namespace Visitor

variable {w : Visitor} {u v : Value} {us : List Value} {st : VisitState}

/-- What the visitor does at a node that is as it was before the visit. -/
def effectAt (w : Visitor) : Value → VisitEffect
  | .tree _ l cs s => w.effect ⟨l, cs, s⟩
  | _ => {}

def linesAt (w : Visitor) (u : Value) : List String := (w.effectAt u).lines

def failureAt (w : Visitor) (u : Value) : Option Error := (w.effectAt u).failure

def ending (failure : Option Error) : Except Error Unit := failure.elim (.ok ()) .error

def Unchanged (st : VisitState) (us : List Value) : Prop :=
  ∀ i ∈ us.filterMap Value.id?, st.revisions.changed.lookup i = none

theorem look_run (raw : Unchanged st [u]) : (Visit.look u).run st = (.ok u, st) := by
  have same : st.revisions.current u = u := by
    cases u with
    | tree id l cs s =>
      cases id with
      | none => rfl
      | some i => exact Revisions.current_raw (raw i (by simp [Value.id?]))
    | _ => rfl
  change (Except.ok (st.revisions.current u), st) = _
  rw [same]

/-- All objects but these are as they were. -/
def Keeps (ids : List Nat) (st st' : VisitState) : Prop :=
  ∀ j ∉ ids, st'.revisions.changed.lookup j = st.revisions.changed.lookup j

theorem Keeps.refl (ids : List Nat) (st : VisitState) : Keeps ids st st := fun _ _ => rfl

theorem Keeps.append {is js : List Nat} {st₁ st₂ : VisitState} (h : Keeps is st st₁) (h' : Keeps js st₁ st₂) :
    Keeps (is ++ js) st st₂ := by
  intro j other
  rw [List.mem_append, not_or] at other
  rw [h' j other.2, h j other.1]

theorem Unchanged.of_keeps {ids : List Nat} {st' : VisitState} (raw : Unchanged st us) (keeps : Keeps ids st st')
    (apart : ∀ i ∈ us.filterMap Value.id?, i ∉ ids) : Unchanged st' us := by
  intro i mem
  rw [keeps i (apart i mem)]
  exact raw i mem

theorem put_run (id : Option Nat) (c : Contents) (st : VisitState) :
    ∃ st', (Visit.put id c).run st = (.ok (), st') ∧ st'.log = st.log ∧ Keeps id.toList st st' := by
  cases id with
  | none => exact ⟨st, rfl, rfl, .refl _ _⟩
  | some i =>
    refine ⟨{ st with revisions := st.revisions.put i c.label c.children c.span }, rfl, rfl, ?_⟩
    intro j other
    exact Revisions.lookup_put_of_ne fun same => other (by simp [same])

theorem leave_run (id : Option Nat) (leaves : Option Contents) (st : VisitState) :
    ∃ st', (leaves.elim (pure ()) (Visit.put id) : Visit Unit).run st = (.ok (), st') ∧ st'.log = st.log ∧
      Keeps id.toList st st' := by
  cases leaves with
  | none => exact ⟨st, rfl, rfl, .refl _ _⟩
  | some c => exact put_run id c st

theorem perform_run (id : Option Nat) (e : VisitEffect) (st : VisitState) :
    ∃ st', (Visit.perform id e).run st = (ending e.failure, st') ∧ st'.log = e.lines.reverse ++ st.log ∧
      Keeps id.toList st st' := by
  have noted : (Visit.note e.lines).run st = (.ok (), { st with log := e.lines.reverse ++ st.log }) := rfl
  obtain ⟨st', left, log, keeps⟩ := leave_run id e.leaves { st with log := e.lines.reverse ++ st.log }
  refine ⟨st', ?_, log, keeps⟩
  rw [Visit.perform, run_bind_of_ok noted, run_bind_of_ok left]
  cases e.failure with
  | none => rfl
  | some error => rfl

theorem atNode_run (w : Visitor) (raw : Unchanged st [u]) :
    ∃ st', (w.atNode u).run st = (ending (w.failureAt u), st') ∧
      st'.log = (w.linesAt u).reverse ++ st.log ∧ Keeps u.id?.toList st st' := by
  rw [atNode, run_bind_of_ok (look_run raw)]
  cases u with
  | tree id l cs s => exact perform_run id (w.effect ⟨l, cs, s⟩) st
  | _ => exact ⟨st, rfl, rfl, .refl _ _⟩

/-- The nodes that are called, up to the first at which the visitor fails. -/
def reached (w : Visitor) : List Value → List Value
  | [] => []
  | u :: us => u :: if (w.failureAt u).isSome then [] else w.reached us

theorem reached_eq_self (quiet : ∀ u ∈ us, w.failureAt u = none) : w.reached us = us := by
  induction us with
  | nil => rfl
  | cons u us ih =>
    rw [List.forall_mem_cons] at quiet
    rw [reached, quiet.1, ih quiet.2]
    rfl

/-- The run lemma: calls at nodes that were not changed before, none of which recurs. -/
theorem atAll_run (w : Visitor) (raw : Unchanged st us) (distinct : (us.filterMap Value.id?).Nodup) :
    ∃ st', (atAll w.atNode us).run st = (ending (us.findSome? w.failureAt), st') ∧
      st'.log = ((w.reached us).flatMap w.linesAt).reverse ++ st.log ∧ Keeps (us.filterMap Value.id?) st st' := by
  induction us generalizing st with
  | nil => exact ⟨st, rfl, rfl, .refl _ _⟩
  | cons u us ih =>
    rw [filterMap_cons_toList, List.nodup_append] at distinct
    rw [Unchanged, filterMap_cons_toList, List.forall_mem_append] at raw
    have own : Unchanged st [u] := by simpa [Unchanged, filterMap_cons_toList] using raw.1
    obtain ⟨st₁, called, line, keeps⟩ := atNode_run w own
    rw [atAll, List.findSome?_cons, reached, List.flatMap_cons, filterMap_cons_toList]
    cases fails : w.failureAt u with
    | some error =>
      rw [fails] at called
      exact ⟨st₁, run_bind_of_error called, by simp [line], keeps.append (.refl _ _)⟩
    | none =>
      rw [fails] at called
      -- the nodes to come are other objects, so the call left them as they were
      have later : Unchanged st₁ us := Unchanged.of_keeps raw.2 keeps fun i mem own =>
        distinct.2.2 i own i mem rfl
      obtain ⟨st₂, rest, lines, keeps'⟩ := ih later distinct.2.1
      exact ⟨st₂, (run_bind_of_ok called).trans rest, by simp [lines, line], keeps.append keeps'⟩

theorem atAll_append (f : Value → Visit Unit) (us vs : List Value) :
    atAll f (us ++ vs) = (do atAll f us; atAll f vs) := by
  induction us with
  | nil => simp [atAll]
  | cons u us ih => simp [atAll, ih]

theorem unchanged_append {vs : List Value} :
    Unchanged st (us ++ vs) ↔ Unchanged st us ∧ Unchanged st vs := by
  simp [Unchanged, or_imp, forall_and]

theorem atAll_children {f : Value → Visit Unit}
    (each : ∀ u ∈ us, ∀ st, u.isTree = true → u.subtreeIds.Nodup → Unchanged st u.trees →
      (f u).run st = (atAll w.atNode u.trees).run st)
    (distinct : (us.flatMap Value.subtreeIds).Nodup) (raw : Unchanged st (us.flatMap Value.trees)) :
    (atAll f (us.filter Value.isTree)).run st = (atAll w.atNode (us.flatMap Value.trees)).run st := by
  induction us generalizing st with
  | nil => rfl
  | cons u us ih =>
    rw [List.forall_mem_cons] at each
    rw [List.flatMap_cons, List.nodup_append] at distinct
    rw [List.flatMap_cons, unchanged_append] at raw
    rw [List.flatMap_cons, atAll_append]
    cases tree : u.isTree with
    | false =>
      rw [List.filter_cons_of_neg (by simp [tree]), Value.trees_of_not_tree tree]
      simpa [atAll] using ih each.2 distinct.2.1 raw.2
    | true =>
      have here := each.1 st tree distinct.1 raw.1
      rw [List.filter_cons_of_pos tree, atAll]
      refine run_bind_congr here ?_
      intro _ st' ran
      have ids : (us.flatMap Value.trees).filterMap Value.id? = us.flatMap Value.subtreeIds := by
        rw [List.filterMap_flatMap]
        exact congrArg (List.flatMap · us) (funext Value.filterMap_id_trees)
      obtain ⟨st₁, called, _, keeps⟩ := atAll_run w raw.1 (by rw [Value.filterMap_id_trees]; exact distinct.1)
      obtain rfl : st₁ = st' := congrArg Prod.snd (called.symm.trans (here.symm.trans ran))
      -- the visit of the first child changed objects in it only
      refine ih each.2 distinct.2.1 (raw.2.of_keeps keeps ?_)
      intro i mem own
      rw [ids] at mem
      rw [Value.filterMap_id_trees] at own
      exact distinct.2.2 i own i mem rfl

theorem bottomUp_run {depth : Nat} (deep : v.size ≤ depth) (tree : v.isTree = true)
    (distinct : v.subtreeIds.Nodup) (raw : Unchanged st v.trees) :
    (w.bottomUp depth v).run st = (atAll w.atNode v.trees).run st := by
  induction depth generalizing v st with
  | zero =>
    cases v with
    | tree => simp [Value.size] at deep
    | _ => cases tree
  | succ depth ih =>
    rw [Value.trees_eq tree] at raw ⊢
    rw [unchanged_append] at raw
    have last : atAll w.atNode [v] = w.atNode v := by simp [atAll]
    rw [bottomUp, run_bind_of_ok (look_run raw.2), atAll_append, last]
    refine run_bind_congr (atAll_children ?_ ?_ raw.1) fun _ _ _ => rfl
    · intro c child st' isTree nodup raw'
      have less := Value.size_lt_of_child child
      exact ih (by omega) isTree nodup raw'
    · cases v with
      | tree i l cs s =>
        rw [Value.subtreeIds_tree] at distinct
        exact (List.nodup_append.mp distinct).1
      | _ => cases tree

/-- The visit calls the visitor at the nodes of the list, one after the other until it fails at one. The
lines it writes show that each node is as it was before the visit when its turn comes. -/
structure CallsAt (w : Visitor) (st : VisitState) (visit : Visit Unit) (nodes : List Value) : Prop where
  run : visit.run st = (atAll w.atNode nodes).run st
  result : (visit.run st).1 = ending (nodes.findSome? w.failureAt)
  log : (visit.run st).2.log = ((w.reached nodes).flatMap w.linesAt).reverse ++ st.log

theorem callsAt_of_run {visit : Visit Unit} (run : visit.run st = (atAll w.atNode us).run st)
    (raw : Unchanged st us) (distinct : (us.filterMap Value.id?).Nodup) : w.CallsAt st visit us := by
  obtain ⟨st', called, lines, _⟩ := atAll_run w raw distinct
  refine ⟨run, ?_, ?_⟩
  · rw [run, called]
  · rw [run, called, lines]

theorem CallsAt.perm_log {visit visit' : Visit Unit} {vs : List Value} (h : w.CallsAt st visit us)
    (h' : w.CallsAt st visit' vs) (same : us.Perm vs) (quiet : ∀ u ∈ us, w.failureAt u = none) :
    (visit.run st).2.log.Perm (visit'.run st).2.log := by
  have quiet' : ∀ u ∈ vs, w.failureAt u = none := fun u mem => quiet u (same.mem_iff.mpr mem)
  rw [h.log, h'.log, reached_eq_self quiet, reached_eq_self quiet']
  have lines := same.flatMap_right w.linesAt
  exact ((List.reverse_perm _).trans (lines.trans (List.reverse_perm _).symm)).append_right _

theorem callsAt_subtrees (w : Visitor) (tree : v.isTree = true) (distinct : v.subtreeIds.Nodup)
    (raw : Unchanged st v.trees) : w.CallsAt st (w.visit .walk v) v.subtrees := by
  have ids := (Value.subtrees_spec tree distinct).1.filterMap Value.id?
  refine callsAt_of_run rfl ?_ ?_
  · intro i mem
    exact raw i (ids.mem_iff.mp mem)
  · rw [ids.nodup_iff, Value.filterMap_id_trees]
    exact distinct

theorem callsAt_trees (w : Visitor) (tree : v.isTree = true) (distinct : v.subtreeIds.Nodup)
    (raw : Unchanged st v.trees) : w.CallsAt st (w.visit .bottomUp v) v.trees := by
  refine callsAt_of_run (bottomUp_run (by omega) tree distinct raw) raw ?_
  rw [Value.filterMap_id_trees]
  exact distinct

end Visitor

namespace Value

open Visitor (Unchanged)

def slanted : Value :=
  .tree (some 0) ⟨"root", false⟩
    [.tree (some 1) ⟨"left", false⟩ [] {},
      .tree (some 2) ⟨"right", false⟩ [.tree (some 3) ⟨"low", false⟩ [] {}] {}] {}

theorem slanted_distinct : slanted.subtreeIds.Nodup := by
  decide

theorem slanted_orders :
    ((Visitor.visit ⟨[], noteLabel⟩ .walk slanted).run {}).2.log ≠
      ((Visitor.visit ⟨[], noteLabel⟩ .bottomUp slanted).run {}).2.log := by
  decide

def doubled : Value :=
  .tree (some 0) ⟨"root", false⟩
    [.tree (some 1) ⟨"twice", false⟩ [.tree (some 2) ⟨"inner", false⟩ [] {}, .int 7] {},
      .tree none ⟨"once", false⟩ [] {},
      .tree (some 1) ⟨"twice", false⟩ [.tree (some 2) ⟨"inner", false⟩ [] {}, .int 7] {}] {}

theorem doubled_shared : doubled.SharedAmongSiblings where
  alike := by
    have leaf : (Value.int 7).trees = [] := trees_of_not_tree rfl
    simp only [doubled, trees_tree, leaf, List.flatMap_cons, List.flatMap_nil, List.append_nil, List.nil_append,
      List.cons_append, List.pairwise_cons, List.mem_cons, List.not_mem_nil, or_false, forall_eq_or_imp,
      forall_eq, SameObject, id?, Option.some.injEq, reduceCtorEq]
    simp
  parent := by decide

theorem slanted_shared : slanted.SharedAmongSiblings :=
  sharedAmongSiblings_of_nodup rfl slanted_distinct

def pruning : Visitor := ⟨[("right", VisitTask.prune.handler)], noteLabel⟩

end Value

end AxisLang
