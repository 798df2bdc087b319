import AxisLang.Handler.InPlace
import AxisLang.Proofs.Identities
import AxisLang.Proofs.Results

/-! Edits of trees, step by step: what each of them yields, and which objects a revision concerns. -/
namespace AxisLang

namespace Edit

variable {α β : Type} {r r' r'' : Revisions} {a : α} {b : β}

def Yields (m : Edit α) (r : Revisions) (a : α) (r' : Revisions) : Prop :=
  m.run r = (.ok a, r')

theorem Yields.bind {m : Edit α} {f : α → Edit β} (h : Yields m r a r') (h' : Yields (f a) r' b r'') :
    Yields (m >>= f) r b r'' :=
  (run_bind_of_ok h).trans h'

theorem Yields.pure (a : α) (r : Revisions) : Yields (Pure.pure a) r a r := rfl

theorem yields_look (v : Value) (r : Revisions) : Yields (look v) r (r.current v) r := rfl

theorem yields_lookThrough (v : Value) (r : Revisions) : Yields (lookThrough v) r (r.now v) r := rfl

theorem yields_ofResult {x : Except Error α} (h : x = .ok a) (r : Revisions) :
    Yields (ofResult x) r a r := by
  rw [h]
  rfl

theorem yields_setChildren (i : Nat) (l : Label) (cs items : List Value) (s : Span) (r : Revisions) :
    Yields (setChildren (.tree (some i) l cs s) items) r () (r.put i l items s) := rfl

theorem yields_adopt {v : Value} (h : ∀ k, v.identified k = (v, k)) (r : Revisions) :
    Yields (adopt v) r v r := by
  change (Except.ok (v.identified r.fresh).1, { r with fresh := (v.identified r.fresh).2 }) = (.ok v, r)
  rw [h]

theorem runOn_of_yields {v x : Value} {f : Value → Edit Value}
    (h : Yields (f v.fresh) { fresh := (v.identified v.idBound).2 } x r') :
    (runOn v f).1 = .ok (r'.now x) := by
  have run : (f v.fresh).run { fresh := (v.identified v.idBound).2 } = (.ok x, r') := h
  change ((f v.fresh).run { fresh := (v.identified v.idBound).2 }).1.map
    ((f v.fresh).run { fresh := (v.identified v.idBound).2 }).2.now = _
  rw [run]
  rfl

end Edit

namespace Revisions

variable {r : Revisions} {i j : Nat} {l : Label} {cs items : List Value} {s : Span}

theorem current_raw (h : r.changed.lookup i = none) :
    r.current (.tree (some i) l cs s) = .tree (some i) l cs s := by
  simp only [current, h]

theorem current_changed {c : Contents} (h : r.changed.lookup i = some c) :
    r.current (.tree (some i) l cs s) = .tree (some i) c.label c.children c.span := by
  simp only [current, h]

theorem lookup_put_self :
    (r.put i l items s).changed.lookup i = some ⟨l, (Value.identifiedAll r.fresh items).1, s⟩ := by
  simp [put]

theorem lookup_put_of_ne (h : j ≠ i) : (r.put i l items s).changed.lookup j = r.changed.lookup j := by
  simp [put, List.lookup_cons, beq_false_of_ne h]

theorem fresh_le_put : r.fresh ≤ (r.put i l items s).fresh :=
  (Value.numberedAll r.fresh items).le

theorem settle_clean (depth : Nat) {v : Value} (h : ∀ i ∈ v.ids, r.changed.lookup i = none) :
    r.settle depth v = v := by
  induction depth generalizing v with
  | zero => rfl
  | succ depth ih =>
    have all {vs : List Value} (h : ∀ i ∈ vs.flatMap Value.ids, r.changed.lookup i = none) :
        vs.map (r.settle depth) = vs := by
      have each : ∀ c ∈ vs, r.settle depth c = id c := fun c mem =>
        ih fun i inside => h i (List.mem_flatMap.mpr ⟨c, mem, inside⟩)
      rw [List.map_congr_left each, List.map_id]
    cases v with
    | tree id l cs s =>
      rw [Value.ids_tree] at h
      have children := all fun i mem => h i (List.mem_append_right _ mem)
      cases id with
      | none => simp only [settle, current, children]
      | some j => rw [settle, current_raw (h j (by simp))]; simp only [children]
    | list xs =>
      rw [Value.ids_list] at h
      simp only [settle, current, all h]
    | _ => rfl

theorem now_unchanged (h : r.changed = []) (v : Value) : r.now v = v :=
  settle_clean _ (by simp [h])

end Revisions

end AxisLang
