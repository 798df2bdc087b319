import AxisLang.Handler.Task
import AxisLang.Proofs.Identities
import AxisLang.Proofs.Results

/-! Handlers whose results depend on what their arguments hold and not on which objects they are. With
such handlers the result of a tree does not depend on identities either. -/
namespace AxisLang

open Transformer (postorder)

namespace Args

def items : Args → List Value
  | .children items => items
  | .inline items => items
  | .span _ items => items
  | .spanInline _ items => items
  | .tree _ items _ => items
  | .token _ => []

def erased : Args → Args
  | .children items => .children (items.map Value.erased)
  | .inline items => .inline (items.map Value.erased)
  | .span s items => .span s (items.map Value.erased)
  | .spanInline s items => .spanInline s (items.map Value.erased)
  | .tree l items s => .tree l (items.map Value.erased) s
  | .token t => .token t

end Args

/-- The handler sees the contents of its arguments only, and hands on no tree objects but those it was
given. -/
structure Handler.Blind (h : Handler) : Prop where
  contents : ∀ a : Args, (h.body a.erased).map Value.erased = (h.body a).map Value.erased
  ids : ∀ a v, h.body a = .ok v → v.ids ⊆ a.items.flatMap Value.ids

theorem Handler.Blind.congr {h : Handler} (blind : h.Blind) {a b : Args} (same : a.erased = b.erased) :
    (h.body a).map Value.erased = (h.body b).map Value.erased := by
  rw [← blind.contents a, same, blind.contents b]

namespace Transformer

def Blind (t : Transformer) : Prop :=
  ∀ name h, t.member? name = some (.handler h) → h.Blind

variable {t : Transformer} {l : Label} {s : Span} {items items' : List Value} {v : Value}

theorem map_inRule (rule : String) (x : Except Error Value) (f : Value → Value) :
    (inRule rule x).map f = inRule rule (x.map f) := by
  cases x with
  | ok v => rfl
  | error e => cases e <;> rfl

theorem ok_of_inRule {rule : String} {x : Except Error Value} (h : inRule rule x = .ok v) : x = .ok v := by
  cases x with
  | ok w => exact h
  | error e => cases e <;> cases h

theorem callNode_contents (blind : t.Blind) (same : items.map Value.erased = items'.map Value.erased) :
    (t.callNode l items s).map Value.erased = (t.callNode l items' s).map Value.erased := by
  unfold callNode
  split
  · simp [Except.map, same]
  · rename_i h found
    split
    · exact (blind _ h found).congr (by simp [Args.erased, same])
    · rw [map_inRule, map_inRule]
      refine congrArg _ ((blind _ h found).congr ?_)
      cases h.convention <;> simp [Args.erased, same]
  · rfl

theorem callNode_ids (blind : t.Blind) (h : t.callNode l items s = .ok v) :
    v.ids ⊆ items.flatMap Value.ids := by
  unfold callNode at h
  split at h
  · rw [← Except.ok.inj h]
    simp
  · rename_i f found
    have ids := (blind _ f found).ids
    split at h
    · exact ids _ v h
    · intro i mem
      have passed := ids _ v (ok_of_inRule h) mem
      cases conv : f.convention <;> simpa [conv, Args.items] using passed
  · split at h
    · cases h
    · cases ok_of_inRule h

theorem callToken_ids (blind : t.Blind) {tok : Token} (h : t.callToken tok = .ok v) : v.ids = [] := by
  unfold callToken at h
  split at h
  · split at h
    · rw [← Except.ok.inj h]
      rfl
    · rename_i f found
      have passed := (blind _ f found).ids _ v (ok_of_inRule h)
      exact List.eq_nil_of_subset_nil passed
    · cases ok_of_inRule h
  · rw [← Except.ok.inj h]
    rfl

theorem isDiscard_erased (v : Value) : v.erased.isDiscard = v.isDiscard := by
  cases v <;> rfl

theorem map_keepResult {v w : Value} {vs ws : List Value} (same : v.erased = w.erased)
    (rest : vs.map Value.erased = ws.map Value.erased) :
    (keepResult v vs).map Value.erased = (keepResult w ws).map Value.erased := by
  have discard : v.isDiscard = w.isDiscard := by rw [← isDiscard_erased, same, isDiscard_erased]
  unfold keepResult
  rw [discard]
  split
  · exact rest
  · rw [List.map_cons, List.map_cons, same, rest]

theorem resultsOf_erased {cs : List Value}
    (each : ∀ c ∈ cs, (t.resultOf c.erased).map Value.erased = (t.resultOf c).map Value.erased) :
    (t.resultsOf (cs.map Value.erased)).map (List.map Value.erased) =
      (t.resultsOf cs).map (List.map Value.erased) := by
  induction cs with
  | nil => rfl
  | cons c cs ih =>
    rw [List.forall_mem_cons] at each
    rw [List.map_cons, resultsOf, resultsOf]
    refine map_bind_congr each.1 ?_
    intro a b same
    refine map_bind_congr (ih each.2) ?_
    intro as bs rest
    exact congrArg Except.ok (map_keepResult same rest)

theorem resultOf_erased (blind : t.Blind) (v : Value) :
    (t.resultOf v.erased).map Value.erased = (t.resultOf v).map Value.erased := by
  induction v using Value.nested_induction with
  | tree i l cs s ih =>
    rw [Value.erased_tree, resultOf, resultOf]
    exact map_bind_congr (resultsOf_erased ih) fun _ _ same => callNode_contents blind same
  | list xs ih => exact congrArg Except.ok (Value.erased_erased _)
  | other v tree list => rw [Value.erased_of_leaf tree list]

theorem resultOf_contents (blind : t.Blind) {v w : Value} (same : v.erased = w.erased) :
    (t.resultOf v).map Value.erased = (t.resultOf w).map Value.erased := by
  rw [← resultOf_erased blind v, same, resultOf_erased blind w]

structure Quiet (t : Transformer) (v : Value) : Prop where
  node : ∀ i l cs s, .tree i l cs s ∈ postorder v → ∀ items, t.resultsOf cs = .ok items →
    ∃ r, t.callNode l items s = .ok r
  token : ∀ tok, .token tok ∈ postorder v → ∃ r, t.callToken tok = .ok r

theorem Quiet.exists_result (h : t.Quiet v) : ∃ r, t.resultOf v = .ok r := by
  induction v using Value.nested_induction with
  | tree i l cs s ih =>
    have all : ∀ ds, (∀ d ∈ ds, d ∈ cs) → ∃ items, t.resultsOf ds = .ok items := by
      intro ds sub
      induction ds with
      | nil => exact ⟨[], rfl⟩
      | cons d ds rest =>
        rw [List.forall_mem_cons] at sub
        obtain ⟨r, first⟩ := ih d sub.1
          ⟨fun j m es sp mem => h.node j m es sp (Value.mem_postorder_of_child sub.1 mem),
            fun tok mem => h.token tok (Value.mem_postorder_of_child sub.1 mem)⟩
        obtain ⟨rs, later⟩ := rest sub.2
        refine ⟨keepResult r rs, ?_⟩
        rw [resultsOf, first, later]
        rfl
    obtain ⟨items, results⟩ := all cs fun d mem => mem
    obtain ⟨r, called⟩ := h.node i l cs s (by simp) items results
    refine ⟨r, ?_⟩
    rw [resultOf, results]
    exact called
  | list xs ih => exact ⟨_, rfl⟩
  | other v tree list =>
    cases v with
    | tree => cases tree
    | list xs => exact absurd rfl (list xs)
    | token tok => exact h.token tok (List.mem_singleton_self _)
    | _ => exact ⟨_, rfl⟩

end Transformer

section Tasks

variable {items items' : List Value}

theorem Value.briefAll_eq_map (vs : List Value) : Value.briefAll vs = vs.map Value.brief := by
  induction vs with
  | nil => rfl
  | cons v vs ih => rw [Value.briefAll, ih, List.map_cons]

theorem Value.brief_erased (v : Value) : v.erased.brief = v.brief := by
  induction v using Value.nested_induction with
  | tree i l cs s ih => rw [Value.erased_tree, Value.brief, Value.brief]
  | list xs ih =>
    rw [Value.erased_list, Value.brief, Value.brief, Value.briefAll_eq_map, Value.briefAll_eq_map,
      List.map_map, List.map_congr_left (f := Value.brief ∘ Value.erased) ih]
  | other v tree list => rw [Value.erased_of_leaf tree list]

theorem NodeTask.run_contents (name : String) (c : Carrier) (task : NodeTask) (items : List Value) :
    (task.run name c (items.map Value.erased)).map Value.erased =
      (task.run name c items).map Value.erased := by
  have again : (items.map Value.erased).map Value.erased = items.map Value.erased := by
    rw [List.map_map]
    exact List.map_congr_left fun v _ => Value.erased_erased v
  cases task with
  | count => simp [NodeTask.run]
  | join =>
    have briefs : Value.briefAll (items.map Value.erased) = Value.briefAll items := by
      rw [Value.briefAll_eq_map, Value.briefAll_eq_map, List.map_map]
      exact List.map_congr_left fun v _ => Value.brief_erased v
    rw [NodeTask.run, NodeTask.run, briefs]
  | first =>
    cases items with
    | nil => rfl
    | cons v vs => exact congrArg Except.ok (Value.erased_erased v)
  | list => rw [NodeTask.run, NodeTask.run, Except.map, Except.map, Value.erased_list, Value.erased_list, again]
  | wrap =>
    rw [NodeTask.run, NodeTask.run, Except.map, Except.map, Value.node, Value.node, Value.erased_tree,
      Value.erased_tree, again]
  | _ => rfl

theorem NodeTask.run_ids {name : String} {c : Carrier} {task : NodeTask} {v : Value}
    (h : task.run name c items = .ok v) : v.ids ⊆ items.flatMap Value.ids := by
  cases task with
  | first =>
    cases items with
    | nil => cases h
    | cons w ws =>
      obtain rfl : w = v := Except.ok.inj h
      simp
  | fail => cases h
  | refuse => cases h
  | list =>
    rw [← Except.ok.inj h]
    simp
  | wrap =>
    rw [← Except.ok.inj h]
    simp [Value.node]
  | _ =>
    rw [← Except.ok.inj h]
    simp [Value.ids]

theorem map_frame {x y : Except Error Value} {frame : Value → List Value}
    (outside : ∀ v, (frame v).map Value.erased = frame v.erased) (h : x.map Value.erased = y.map Value.erased) :
    (do return Value.list (frame (← x))).map Value.erased =
      (do return Value.list (frame (← y))).map Value.erased := by
  refine map_bind_congr h ?_
  intro a b same
  refine congrArg Except.ok ?_
  rw [Value.erased_list, Value.erased_list, outside, outside, same]

theorem NodeTask.blind (name : String) (convention : Convention) (task : NodeTask) :
    Handler.Blind ⟨name, convention, task.body name⟩ where
  contents := by
    intro a
    cases a with
    | children xs => exact run_contents name _ task xs
    | inline xs => exact run_contents name _ task xs
    | span s xs => exact map_frame (fun _ => rfl) (run_contents name _ task xs)
    | spanInline s xs => exact map_frame (fun _ => rfl) (run_contents name _ task xs)
    | tree l xs s => exact map_frame (fun _ => rfl) (run_contents name _ task xs)
    | token t => rfl
  ids := by
    intro a v h
    cases a with
    | children xs => exact run_ids h
    | inline xs => exact run_ids h
    | span s xs =>
      obtain ⟨w, run, last⟩ := bind_eq_ok_iff.mp h
      rw [← Except.ok.inj last]
      simpa [Value.ids, Value.idsAll, Args.items] using run_ids run
    | spanInline s xs =>
      obtain ⟨w, run, last⟩ := bind_eq_ok_iff.mp h
      rw [← Except.ok.inj last]
      simpa [Value.ids, Value.idsAll, Args.items] using run_ids run
    | tree l xs s =>
      obtain ⟨w, run, last⟩ := bind_eq_ok_iff.mp h
      rw [← Except.ok.inj last]
      simpa [Value.ids, Value.idsAll, Args.items] using run_ids run
    | token t =>
      have none : (t.content.map fun c => Value.str (String.singleton c)).flatMap Value.ids = [] := by
        simp [Value.ids]
      have inside := run_ids h
      rw [none] at inside
      exact inside

theorem TokenTask.blind (name : String) (convention : Convention) (task : TokenTask) :
    Handler.Blind ⟨name, convention, task.body⟩ where
  contents := by
    intro a
    cases a <;> rfl
  ids := by
    intro a v h
    cases a with
    | token t =>
      cases task with
      | fail => cases h
      | refuse => cases h
      | _ =>
        rw [← Except.ok.inj h]
        simp [Value.ids]
    | _ => cases h

theorem TaskTransformer.blind_of_build {tasks : TaskTransformer} {t : Transformer}
    (h : tasks.build = .ok t) : t.Blind := by
  obtain ⟨whole, _, h⟩ := bind_eq_ok_iff.mp h
  obtain ⟨handlers, rules, h⟩ := bind_eq_ok_iff.mp h
  obtain rfl := Except.ok.inj h
  intro name f found
  obtain ⟨front, back, eq, _⟩ := List.lookup_eq_some_iff.mp found
  have mem : (name, Member.handler f) ∈ front ++ (name, Member.handler f) :: back := by simp
  rw [← eq, List.mem_append, List.mem_append] at mem
  rcases mem with (constant | rule) | token
  · simp at constant
  · obtain ⟨r, _, made⟩ := exists_left_of_forall₂ (forall₂_of_mapM rules) rule
    obtain ⟨convention, _, last⟩ := bind_eq_ok_iff.mp made
    obtain ⟨rfl, same⟩ := Prod.mk.inj (Except.ok.inj last)
    rw [← Member.handler.inj same]
    exact NodeTask.blind _ _ _
  · obtain ⟨task, _, last⟩ := List.mem_map.mp token
    obtain ⟨rfl, same⟩ := Prod.mk.inj last
    rw [← Member.handler.inj same]
    exact TokenTask.blind _ _ _

end Tasks

end AxisLang
