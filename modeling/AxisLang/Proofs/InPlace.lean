import AxisLang.Proofs.BlindHandlers
import AxisLang.Proofs.Edits
import AxisLang.Proofs.Subtrees

/-! The ways in which a transformer goes through a tree agree: building results from the leaves up,
replacing children in place level by level, and replacing them on the way back from a descent. Each tree
object is changed once, after all trees in it, and what replaces its children holds no object that is
changed later. -/
namespace AxisLang

open Transformer (postorder)

namespace Transformer

open Edit (Yields)

variable {t : Transformer} {S : List Nat} {r : Revisions} {i : Nat} {l : Label} {cs items : List Value}
  {s : Span} {v x : Value}

/-- The value has the contents of the result of another, and holds none of the objects `S`. -/
structure Stands (t : Transformer) (S : List Nat) (v x : Value) : Prop where
  result : (t.resultOf v).map Value.erased = .ok x.erased
  clean : ∀ i ∈ x.ids, i ∉ S

structure StandAll (t : Transformer) (S : List Nat) (cs items : List Value) : Prop where
  results : (t.resultsOf cs).map (List.map Value.erased) = .ok (items.map Value.erased)
  clean : ∀ i ∈ items.flatMap Value.ids, i ∉ S

theorem StandAll.cons (first : Stands t S v x) (rest : StandAll t S cs items) :
    StandAll t S (v :: cs) (keepResult x items) where
  results := by
    obtain ⟨y, result, same⟩ := map_eq_ok_iff.mp first.result
    obtain ⟨ys, results, sames⟩ := map_eq_ok_iff.mp rest.results
    rw [resultsOf, result, results]
    exact congrArg Except.ok (map_keepResult same sames)
  clean := by
    intro i mem
    have either : i ∈ (x :: items).flatMap Value.ids := by
      unfold keepResult at mem
      split at mem
      · exact List.mem_append_right _ mem
      · exact mem
    exact (List.mem_append.mp either).elim (first.clean i) (rest.clean i)

theorem StandAll.identified (h : StandAll t S cs items) {n : Nat} (new : ∀ i ∈ S, i < n) :
    StandAll t S cs (Value.identifiedAll n items).1 where
  results := by rw [(Value.numberedAll n items).erased, h.results]
  clean := by
    intro i mem inside
    have count := (Value.numberedAll n items).old i (new i inside)
    have pos := List.count_pos_iff.mpr mem
    exact h.clean i (List.count_pos_iff.mp (by omega)) inside

theorem StandAll.node (blind : t.Blind) (h : StandAll t S cs items)
    (answers : ∃ y, t.resultOf (.tree (some i) l cs s) = .ok y) :
    ∃ x, t.callNode l items s = .ok x ∧ Stands t S (.tree (some i) l cs s) x := by
  obtain ⟨y, result⟩ := answers
  obtain ⟨ys, results, sames⟩ := map_eq_ok_iff.mp h.results
  rw [resultOf, results] at result
  have contents := callNode_contents blind sames (l := l) (s := s)
  rw [show t.callNode l ys s = .ok y from result] at contents
  obtain ⟨x, called, same⟩ := map_eq_ok_iff.mp contents.symm
  refine ⟨x, called, ?_, fun j mem => h.clean j (callNode_ids blind called mem)⟩
  rw [resultOf, results, same]
  exact congrArg (Except.map Value.erased) result

/-- The object of a tree holds the results of its children. -/
def Done (t : Transformer) (S : List Nat) (r : Revisions) : Value → Prop
  | .tree (some i) l cs s => ∃ items, r.changed.lookup i = some ⟨l, items, s⟩ ∧ StandAll t S cs items
  | _ => False

theorem done_put (h : StandAll t S cs items) (new : ∀ j ∈ S, j < r.fresh) :
    Done t S (r.put i l items s) (.tree (some i) l cs s) :=
  ⟨_, Revisions.lookup_put_self, h.identified new⟩

theorem Done.put (done : Done t S r v) (other : v.id? ≠ some i) : Done t S (r.put i l items s) v := by
  unfold Done at done ⊢
  split at done
  · obtain ⟨items, found, stand⟩ := done
    refine ⟨items, ?_, stand⟩
    rw [Revisions.lookup_put_of_ne, found]
    rintro rfl
    exact other rfl
  · exact done

theorem Done.callNow (blind : t.Blind) (done : Done t S r v) (answers : ∃ y, t.resultOf v = .ok y) :
    ∃ x, Yields (t.callNow v) r x r ∧ Stands t S v x := by
  unfold Done at done
  split at done
  · rename_i i l cs s
    obtain ⟨items, found, stand⟩ := done
    obtain ⟨x, called, stands⟩ := stand.node blind answers
    refine ⟨x, (Edit.yields_look _ r).bind ?_, stands⟩
    rw [Revisions.current_changed found]
    exact Edit.yields_ofResult called r
  · exact done.elim

structure Fit (t : Transformer) (S : List Nat) (v : Value) : Prop where
  named : Value.AllNamed [v]
  inside : ∀ i ∈ v.subtreeIds, i ∈ S
  hidden : ∀ i ∈ v.hiddenIds, i ∉ S
  answers : ∃ y, t.resultOf v = .ok y

theorem exists_result_of_mem {vs rs : List Value} (h : t.resultsOf vs = .ok rs) {c : Value} (mem : c ∈ vs) :
    ∃ y, t.resultOf c = .ok y := by
  induction vs generalizing rs with
  | nil => simp at mem
  | cons v vs ih =>
    rw [resultsOf] at h
    obtain ⟨y, first, h⟩ := bind_eq_ok_iff.mp h
    obtain ⟨ys, rest, _⟩ := bind_eq_ok_iff.mp h
    rcases List.mem_cons.mp mem with rfl | mem
    · exact ⟨y, first⟩
    · exact ih rest mem

theorem exists_results {id : Option Nat} (h : ∃ y, t.resultOf (.tree id l cs s) = .ok y) :
    ∃ ys, t.resultsOf cs = .ok ys := by
  obtain ⟨y, result⟩ := h
  rw [resultOf] at result
  obtain ⟨ys, results, _⟩ := bind_eq_ok_iff.mp result
  exact ⟨ys, results⟩

theorem Fit.child {id : Option Nat} (fit : Fit t S (.tree id l cs s)) {c : Value} (mem : c ∈ cs) :
    Fit t S c where
  named := by
    intro u among tree
    rw [List.flatMap_singleton] at among
    exact fit.named u (by simpa using .inl ⟨c, mem, among⟩) tree
  inside := by
    intro i among
    refine fit.inside i ?_
    rw [Value.subtreeIds_tree]
    exact List.mem_append_left _ (List.mem_flatMap.mpr ⟨c, mem, among⟩)
  hidden := by
    intro i among
    refine fit.hidden i ?_
    rw [Value.hiddenIds_tree]
    exact List.mem_flatMap.mpr ⟨c, mem, among⟩
  answers := by
    obtain ⟨ys, results⟩ := exists_results fit.answers
    exact exists_result_of_mem results mem

theorem Fit.clean (fit : Fit t S v) (leaf : v.isTree = false) : ∀ i ∈ v.ids, i ∉ S := by
  intro i mem
  refine fit.hidden i ?_
  rw [Value.hiddenIds_of_not_tree leaf]
  exact mem

def editChild (t : Transformer) (f : Value → Edit Value) : Value → Edit Value
  | .tree i l cs s => f (.tree i l cs s)
  | .token tok => Edit.ofResult (t.callToken tok)
  | v => pure v

theorem editResults_cons (f : Value → Edit Value) (v : Value) (vs : List Value) :
    t.editResults f (v :: vs) = (do
      let x ← t.editChild f v
      return keepResult x (← t.editResults f vs)) := by
  cases v <;> rfl

theorem editChild_leaf (blind : t.Blind) (fit : Fit t S v) (leaf : v.isTree = false)
    (f : Value → Edit Value) (r : Revisions) :
    ∃ x, Yields (t.editChild f v) r x r ∧ Stands t S v x := by
  have clean := fit.clean leaf
  obtain ⟨y, result⟩ := fit.answers
  cases v with
  | tree => cases leaf
  | token tok =>
    refine ⟨y, Edit.yields_ofResult result r, ?_, ?_⟩
    · rw [result]
      rfl
    · simp [callToken_ids blind result]
  | _ => exact ⟨_, .pure _ r, rfl, clean⟩

theorem editResults_yields (blind : t.Blind) {f : Value → Edit Value}
    {I : List Value → Revisions → Prop}
    (step : ∀ c cs r, I (c :: cs) r → c.isTree = true →
      ∃ x r', Yields (f c) r x r' ∧ Stands t S c x ∧ I cs r')
    (skip : ∀ c cs r, I (c :: cs) r → c.isTree = false → I cs r)
    (fits : ∀ c ∈ cs, Fit t S c) (start : I cs r) :
    ∃ items r', Yields (t.editResults f cs) r items r' ∧ StandAll t S cs items ∧ I [] r' := by
  induction cs generalizing r with
  | nil => exact ⟨[], r, .pure [] r, ⟨rfl, by simp⟩, start⟩
  | cons c cs ih =>
    rw [List.forall_mem_cons] at fits
    obtain ⟨x, r₁, first, stands, next⟩ :
        ∃ x r₁, Yields (t.editChild f c) r x r₁ ∧ Stands t S c x ∧ I cs r₁ := by
      cases tree : c.isTree with
      | false =>
        obtain ⟨x, first, stands⟩ := editChild_leaf blind fits.1 tree f r
        exact ⟨x, r, first, stands, skip c cs r start tree⟩
      | true =>
        have same : t.editChild f c = f c := by
          cases c with
          | tree => rfl
          | _ => cases tree
        rw [same]
        exact step c cs r start tree
    obtain ⟨items, r₂, rest, all, last⟩ := ih fits.2 next
    refine ⟨keepResult x items, r₂, ?_, all.cons stands, last⟩
    rw [editResults_cons]
    exact first.bind (rest.bind (.pure (keepResult x items) r₂))

theorem Fit.exists_tree (fit : Fit t S v) (tree : v.isTree = true) :
    ∃ i l cs s, v = .tree (some i) l cs s ∧ i ∈ S := by
  obtain ⟨i, own⟩ := fit.named v (by simpa using Value.mem_postorder_self v) tree
  cases v with
  | tree id l cs s =>
    obtain rfl : id = some i := own
    exact ⟨i, l, cs, s, rfl, fit.inside i (by simp)⟩
  | _ => cases tree

theorem editResults_callNow (blind : t.Blind) (fits : ∀ c ∈ cs, Fit t S c)
    (done : ∀ c ∈ cs, c.isTree = true → Done t S r c) :
    ∃ items, Yields (t.editResults t.callNow cs) r items r ∧ StandAll t S cs items := by
  have step : ∀ c us r', (r' = r ∧ ∀ d ∈ c :: us, d ∈ cs) → c.isTree = true →
      ∃ x r'', Yields (t.callNow c) r' x r'' ∧ Stands t S c x ∧ r'' = r ∧ ∀ d ∈ us, d ∈ cs := by
    rintro c us r' ⟨same, among⟩ tree
    rw [List.forall_mem_cons] at among
    obtain ⟨x, called, stands⟩ := (done c among.1 tree).callNow blind (fits c among.1).answers
    exact ⟨x, r, same ▸ called, stands, rfl, among.2⟩
  have skip : ∀ c us r', (r' = r ∧ ∀ d ∈ c :: us, d ∈ cs) → c.isTree = false →
      r' = r ∧ ∀ d ∈ us, d ∈ cs :=
    fun c us r' before _ => ⟨before.1, (List.forall_mem_cons.mp before.2).2⟩
  obtain ⟨items, r', edited, stand, rfl, _⟩ :=
    editResults_yields (I := fun us r' => r' = r ∧ ∀ d ∈ us, d ∈ cs) blind step skip fits
      ⟨rfl, fun _ mem => mem⟩
  exact ⟨items, edited, stand⟩

/-- The run lemma of the method by levels, for an order in which each tree stands behind the trees among
its children. -/
theorem editAll_yields (blind : t.Blind) {vs : List Value}
    (fits : ∀ v ∈ vs, v.isTree = true ∧ Fit t S v) (order : Value.BottomUp vs)
    (distinct : (vs.filterMap Value.id?).Nodup) {finished rest : List Value} (split : vs = finished ++ rest)
    (done : ∀ c ∈ finished, Done t S r c)
    (raw : ∀ i ∈ rest.filterMap Value.id?, r.changed.lookup i = none) (new : ∀ i ∈ S, i < r.fresh) :
    ∃ r', Yields (t.editAll rest) r () r' ∧ (∀ c ∈ vs, Done t S r' c) ∧
      ∀ i, i ∉ S → r'.changed.lookup i = r.changed.lookup i := by
  induction rest generalizing finished r with
  | nil =>
    rw [List.append_nil] at split
    subst split
    exact ⟨r, .pure () r, done, fun _ _ => rfl⟩
  | cons x rest ih =>
    obtain ⟨tree, fit⟩ := fits x (by simp [split])
    obtain ⟨i, l, cs, s, rfl, inside⟩ := fit.exists_tree tree
    have first : ∀ us, (Value.tree (some i) l cs s :: us).filterMap Value.id? =
        i :: us.filterMap Value.id? := fun _ => rfl
    have apart := distinct
    rw [split, List.filterMap_append, first, List.nodup_append, List.nodup_cons] at apart
    rw [first, List.forall_mem_cons] at raw
    obtain ⟨items, edited, stand⟩ := editResults_callNow blind (fun c among => fit.child among)
      fun c among isTree => done c (order finished _ rest split c among isTree)
    have done' : ∀ c ∈ finished ++ [.tree (some i) l cs s], Done t S (r.put i l items s) c := by
      intro c mem
      rcases List.mem_append.mp mem with mem | mem
      · refine (done c mem).put ?_
        intro own
        exact apart.2.2 i (List.mem_filterMap.mpr ⟨c, mem, own⟩) i List.mem_cons_self rfl
      · rw [List.mem_singleton.mp mem]
        exact done_put stand new
    have raw' : ∀ j ∈ rest.filterMap Value.id?, (r.put i l items s).changed.lookup j = none := by
      intro j mem
      rw [Revisions.lookup_put_of_ne, raw.2 j mem]
      rintro rfl
      exact apart.2.1.1 mem
    obtain ⟨r', later, all, outside⟩ := ih (by rw [split, List.append_assoc]; rfl) done' raw'
      fun j mem => Nat.lt_of_lt_of_le (new j mem) Revisions.fresh_le_put
    refine ⟨r', ?_, all, ?_⟩
    · refine (Edit.yields_look _ r).bind ?_
      rw [Revisions.current_raw raw.1]
      exact edited.bind ((Edit.yields_setChildren i l cs items s r).bind later)
    · intro j notIn
      rw [outside j notIn, Revisions.lookup_put_of_ne]
      rintro rfl
      exact notIn inside

structure Touches (T : List Nat) (r r' : Revisions) : Prop where
  outside : ∀ i, i ∉ T → r'.changed.lookup i = r.changed.lookup i
  fresh : r.fresh ≤ r'.fresh

theorem Touches.trans {T T' : List Nat} {r' r'' : Revisions} (h : Touches T r r') (h' : Touches T' r' r'')
    (sub : T' ⊆ T) : Touches T r r'' where
  outside i notIn := (h'.outside i fun mem => notIn (sub mem)).trans (h.outside i notIn)
  fresh := Nat.le_trans h.fresh h'.fresh

/-- The invariant of the descent into children: those still to come are as they were. -/
structure Ahead (cs : List Value) (r₀ : Revisions) (us : List Value) (r : Revisions) : Prop where
  among : ∀ u ∈ us, u ∈ cs
  distinct : (us.flatMap Value.subtreeIds).Nodup
  raw : ∀ i ∈ us.flatMap Value.subtreeIds, r.changed.lookup i = none
  touched : Touches (cs.flatMap Value.subtreeIds) r₀ r

theorem Ahead.next {us : List Value} {r₀ r' : Revisions} (h : Ahead cs r₀ (v :: us) r)
    (touches : Touches v.subtreeIds r r') : Ahead cs r₀ us r' := by
  obtain ⟨among, distinct, raw, touched⟩ := h
  rw [List.forall_mem_cons] at among
  rw [List.flatMap_cons, List.nodup_append] at distinct
  rw [List.flatMap_cons, List.forall_mem_append] at raw
  refine ⟨among.2, distinct.2.1, ?_, touched.trans touches ?_⟩
  · intro i mem
    rw [touches.outside i fun own => distinct.2.2 i own i mem rfl]
    exact raw.2 i mem
  · intro i mem
    exact List.mem_flatMap.mpr ⟨v, among.1, mem⟩

theorem inPlaceDown_yields (blind : t.Blind) {depth : Nat} (deep : v.size ≤ depth)
    (tree : v.isTree = true) (fit : Fit t S v) (distinct : v.subtreeIds.Nodup)
    (raw : ∀ i ∈ v.subtreeIds, r.changed.lookup i = none) (new : ∀ i ∈ S, i < r.fresh) :
    ∃ x r', Yields (t.inPlaceDown depth v) r x r' ∧ Stands t S v x ∧ Touches v.subtreeIds r r' := by
  induction depth generalizing v r with
  | zero =>
    obtain ⟨i, l, cs, s, rfl, _⟩ := fit.exists_tree tree
    rw [Value.size] at deep
    omega
  | succ depth ih =>
    obtain ⟨i, l, cs, s, rfl, inside⟩ := fit.exists_tree tree
    rw [Value.subtreeIds_tree] at distinct raw ⊢
    rw [List.forall_mem_append] at raw
    have own := raw.2 i (by simp)
    have apart : i ∉ cs.flatMap Value.subtreeIds := by
      intro mem
      exact (List.nodup_append.mp distinct).2.2 i mem i (by simp) rfl
    -- children are done from left to right, and those still to come are as they were
    have step : ∀ c us r', Ahead cs r (c :: us) r' → c.isTree = true →
        ∃ x r'', Yields (t.inPlaceDown depth c) r' x r'' ∧ Stands t S c x ∧ Ahead cs r us r'' := by
      intro c us r' ahead isTree
      have mem := ahead.among c List.mem_cons_self
      have smaller := Value.size_lt_of_child (v := .tree (some i) l cs s) mem
      have nodup := ahead.distinct
      have unchanged := ahead.raw
      rw [List.flatMap_cons, List.nodup_append] at nodup
      rw [List.flatMap_cons, List.forall_mem_append] at unchanged
      obtain ⟨x, r'', run, stands, touches⟩ := ih (by omega) isTree (fit.child mem) nodup.1 unchanged.1
        fun j among => Nat.lt_of_lt_of_le (new j among) ahead.touched.fresh
      exact ⟨x, r'', run, stands, ahead.next touches⟩
    have skip : ∀ c us r', Ahead cs r (c :: us) r' → c.isTree = false → Ahead cs r us r' := by
      intro c us r' ahead leaf
      exact ahead.next ⟨fun _ _ => rfl, Nat.le_refl _⟩
    have start : Ahead cs r cs r :=
      ⟨fun _ mem => mem, (List.nodup_append.mp distinct).1, raw.1, fun _ _ => rfl, Nat.le_refl _⟩
    obtain ⟨items, r₁, edited, stand, ahead⟩ :=
      editResults_yields blind step skip (fun c mem => fit.child mem) start
    have unchanged : r₁.changed.lookup i = none := by rw [ahead.touched.outside i apart, own]
    have done : Done t S (r₁.put i l items s) (.tree (some i) l cs s) :=
      done_put stand fun j mem => Nat.lt_of_lt_of_le (new j mem) ahead.touched.fresh
    obtain ⟨x, called, stands⟩ := done.callNow blind fit.answers
    refine ⟨x, r₁.put i l items s, ?_, stands, ?_, ?_⟩
    · refine (Edit.yields_look _ r).bind ?_
      rw [Revisions.current_raw own]
      refine edited.bind ((Edit.yields_look _ r₁).bind ?_)
      rw [Revisions.current_raw unchanged]
      exact (Edit.yields_setChildren i l cs items s r₁).bind called
    · intro j notIn
      rw [List.mem_append, not_or] at notIn
      rw [Revisions.lookup_put_of_ne, ahead.touched.outside j notIn.1]
      rintro rfl
      exact notIn.2 (by simp)
    · exact Nat.le_trans ahead.touched.fresh Revisions.fresh_le_put

def goingBy (t : Transformer) (strategy : Strategy) : Transformer := { t with strategy }

theorem callNode_goingBy {strategy : Strategy} (h : strategy ≠ .inlined) :
    (t.goingBy strategy).callNode l items s = (t.goingBy .pure).callNode l items s := by
  unfold callNode
  simp only [goingBy, member?, h, if_false, reduceCtorEq]

mutual

theorem resultOf_goingBy {strategy : Strategy} (h : strategy ≠ .inlined) (v : Value) :
    (t.goingBy strategy).resultOf v = (t.goingBy .pure).resultOf v := by
  cases v with
  | tree id l cs s =>
    rw [resultOf, resultOf, resultsOf_goingBy h cs]
    exact congrArg _ (funext fun items => callNode_goingBy h)
  | _ => rfl

theorem resultsOf_goingBy {strategy : Strategy} (h : strategy ≠ .inlined) (vs : List Value) :
    (t.goingBy strategy).resultsOf vs = (t.goingBy .pure).resultsOf vs := by
  cases vs with
  | nil => rfl
  | cons v vs => rw [resultsOf, resultsOf, resultOf_goingBy h v, resultsOf_goingBy h vs]

end

theorem fit_fresh (unshared : v.Unshared) (answers : ∃ y, t.resultOf v.fresh = .ok y) :
    Fit t v.fresh.subtreeIds v.fresh where
  named := by
    intro u mem tree
    exact Value.exists_id_of_mem_fresh (by simpa using mem) tree
  inside := fun _ mem => mem
  hidden := fun _ hidden mem => unshared.fresh.notMem_hidden mem hidden
  answers := answers

theorem Fit.of_mem_trees (fit : Fit t S v) {u : Value} (mem : u ∈ v.trees) :
    u.isTree = true ∧ Fit t S u := by
  induction v using Value.nested_induction with
  | tree id l cs s ih =>
    rw [Value.trees_tree, List.mem_append, List.mem_singleton] at mem
    rcases mem with mem | rfl
    · obtain ⟨c, among, mem⟩ := List.mem_flatMap.mp mem
      exact ih c among (fit.child among) mem
    · exact ⟨rfl, fit⟩
  | list xs ih =>
    rw [Value.trees_of_not_tree rfl] at mem
    simp at mem
  | other v tree list =>
    rw [Value.trees_of_not_tree tree] at mem
    simp at mem

section Runs

variable (blind : t.Blind) (tree : v.isTree = true) (fit : Fit t v.subtreeIds v)
  (distinct : v.subtreeIds.Nodup) (new : ∀ i ∈ v.subtreeIds, i < r.fresh) (unchanged : r.changed = [])
include blind tree fit distinct new unchanged

theorem inPlace_yields :
    ∃ x r', Yields (t.inPlace v) r x r' ∧ Stands t v.subtreeIds v x ∧
      ∀ i, i ∉ v.subtreeIds → r'.changed.lookup i = none := by
  obtain ⟨perm, order⟩ := Value.subtrees_spec tree distinct
  have ids := perm.filterMap Value.id?
  rw [Value.filterMap_id_trees] at ids
  obtain ⟨r', edited, done, outside⟩ := editAll_yields blind
    (fun u mem => fit.of_mem_trees (perm.mem_iff.mp mem)) order (ids.nodup_iff.mpr distinct)
    (List.nil_append _).symm (by simp) (by simp [unchanged]) new
  have root : v ∈ v.subtrees := by
    rw [perm.mem_iff, Value.trees_eq tree]
    simp
  obtain ⟨x, called, stands⟩ := (done v root).callNow blind fit.answers
  refine ⟨x, r', (Edit.yields_lookThrough v r).bind ?_, stands, ?_⟩
  · rw [Revisions.now_unchanged unchanged]
    exact edited.bind called
  · intro i notIn
    rw [outside i notIn, unchanged]
    rfl

theorem down_yields {depth : Nat} (deep : v.size ≤ depth) :
    ∃ x r', Yields (t.inPlaceDown depth v) r x r' ∧ Stands t v.subtreeIds v x ∧
      ∀ i, i ∉ v.subtreeIds → r'.changed.lookup i = none := by
  obtain ⟨x, r', run, stands, touches⟩ :=
    inPlaceDown_yields blind deep tree fit distinct (by simp [unchanged]) new
  refine ⟨x, r', run, stands, ?_⟩
  intro i notIn
  rw [touches.outside i notIn, unchanged]
  rfl

end Runs

/-- The run returns a result of the tree with the given contents. -/
def Returns (t : Transformer) (v : Value) (contents : Value) : Prop :=
  ∃ x, ((Transformation.single t).run v).1 = .ok x ∧ x.erased = contents

theorem returns_of_yields {y : Value} {r' : Revisions}
    (h : Yields (t.apply v.fresh) { fresh := (v.identified v.idBound).2 } x r')
    (stands : Stands t S v.fresh x) (outside : ∀ i, i ∉ S → r'.changed.lookup i = none)
    (result : t.resultOf v.fresh = .ok y) : t.Returns v y.erased := by
  refine ⟨x, (Edit.runOn_of_yields h).trans (congrArg Except.ok ?_), ?_⟩
  · exact Revisions.settle_clean _ fun i mem => outside i (stands.clean i mem)
  · have contents := stands.result
    rw [result] at contents
    exact (Except.ok.inj contents).symm

section Strategies

variable {y : Value} (blind : t.Blind) (tree : v.fresh.isTree = true) (unshared : v.Unshared)
  (result : t.resultOf v.fresh = .ok y)

include tree result in
theorem returns_pure (strategy : t.strategy = .pure) : t.Returns v y.erased := by
  have applied : t.apply v.fresh =
      Edit.lookThrough v.fresh >>= fun u => Edit.ofResult (t.resultOf u) := by
    simp only [apply, strategy, tree, if_true]
  have yields : Yields (t.apply v.fresh) { fresh := (v.identified v.idBound).2 } y
      { fresh := (v.identified v.idBound).2 } := by
    rw [applied]
    refine (Edit.yields_lookThrough _ _).bind ?_
    rw [Revisions.now_unchanged rfl]
    exact Edit.yields_ofResult result _
  refine ⟨y, (Edit.runOn_of_yields yields).trans (congrArg Except.ok ?_), rfl⟩
  exact Revisions.now_unchanged rfl y

include blind tree unshared result

theorem returns_inPlace (strategy : t.strategy = .inPlace) : t.Returns v y.erased := by
  have applied : t.apply v.fresh = Edit.adopt v.fresh >>= fun u => t.inPlace u := by
    simp only [apply, strategy, tree, if_true]
  obtain ⟨x, r', run, stands, outside⟩ := inPlace_yields
    (r := { fresh := (v.identified v.idBound).2 }) blind tree (fit_fresh unshared ⟨y, result⟩)
    unshared.fresh.nodup (fun i => Value.lt_of_mem_fresh) rfl
  refine returns_of_yields ?_ stands outside result
  rw [applied]
  exact (Edit.yields_adopt Value.identified_fresh _).bind run

theorem returns_inPlaceRecursive (strategy : t.strategy = .inPlaceRecursive) :
    t.Returns v y.erased := by
  have applied : t.apply v.fresh = Edit.adopt v.fresh >>= fun u =>
      Edit.lookThrough u >>= fun whole => t.inPlaceDown (2 * whole.size + 2) u := by
    simp only [apply, strategy, tree, if_true]
  have deep : v.fresh.size ≤ 2 * v.fresh.size + 2 := by omega
  obtain ⟨x, r', run, stands, outside⟩ := down_yields
    (r := { fresh := (v.identified v.idBound).2 }) blind tree (fit_fresh unshared ⟨y, result⟩)
    unshared.fresh.nodup (fun i => Value.lt_of_mem_fresh) rfl deep
  refine returns_of_yields ?_ stands outside result
  rw [applied]
  refine (Edit.yields_adopt Value.identified_fresh _).bind ((Edit.yields_lookThrough _ _).bind ?_)
  rw [Revisions.now_unchanged rfl]
  exact run

end Strategies

/-- The three ways through a tree agree. With handlers that look at contents only, on a tree in which no
subtree stands in two places, and if no handler raises, all three return, and what they return has the
same contents. -/
theorem strategies_agree {t : Transformer} {v : Value} (blind : t.Blind) (tree : v.isTree = true)
    (unshared : v.Unshared) (quiet : (t.goingBy .pure).Quiet v) :
    ∃ x y z, ((Transformation.single (t.goingBy .pure)).run v).1 = .ok x ∧
      ((Transformation.single (t.goingBy .inPlace)).run v).1 = .ok y ∧
      ((Transformation.single (t.goingBy .inPlaceRecursive)).run v).1 = .ok z ∧
      x.erased = y.erased ∧ x.erased = z.erased ∧
      x.same y = true ∧ x.same z = true ∧ y.same z = true := by
  have tree' : v.fresh.isTree = true := Value.isTree_fresh.trans tree
  have blind' (strategy : Strategy) : (t.goingBy strategy).Blind := blind
  -- the identities that a run gives out make no difference to the result
  obtain ⟨r, result⟩ := quiet.exists_result
  have contents := resultOf_contents (blind' .pure) (Value.erased_fresh (v := v))
  rw [result] at contents
  obtain ⟨w, fresh, _⟩ := map_eq_ok_iff.mp contents
  have inPlace : (t.goingBy .inPlace).resultOf v.fresh = .ok w := by
    rw [resultOf_goingBy (by decide), fresh]
  have recursive : (t.goingBy .inPlaceRecursive).resultOf v.fresh = .ok w := by
    rw [resultOf_goingBy (by decide), fresh]
  obtain ⟨x, ranX, atX⟩ := returns_pure tree' fresh rfl
  obtain ⟨y, ranY, atY⟩ := returns_inPlace (blind' _) tree' unshared inPlace rfl
  obtain ⟨z, ranZ, atZ⟩ := returns_inPlaceRecursive (blind' _) tree' unshared recursive rfl
  have xy : x.erased = y.erased := atX.trans atY.symm
  have xz : x.erased = z.erased := atX.trans atZ.symm
  exact ⟨x, y, z, ranX, ranY, ranZ, xy, xz, Value.same_of_erased xy, Value.same_of_erased xz,
    Value.same_of_erased (xy.symm.trans xz)⟩

def sampleTransformer : Transformer where
  members := [("start", .handler ⟨"start", .tree, NodeTask.list.body "start"⟩),
    ("neg", .handler ⟨"neg", .inline, NodeTask.wrap.body "neg"⟩),
    ("pick", .handler ⟨"pick", .plain, NodeTask.first.body "pick"⟩),
    ("drop", .handler ⟨"drop", .span, NodeTask.discard.body "drop"⟩),
    ("NAME", .handler ⟨"NAME", .plain, TokenTask.upper.body⟩)]

def sampleTree : Value :=
  .tree (some 2) ⟨"start", false⟩
    [.tree (some 0) ⟨"neg", false⟩ [.token { kind := "NAME", text := Text.ofString "a" }, .int 1] {},
      .node "drop" [.node "neg" []], .list [.node "neg" []], .node "pick" [.node "other" [.null]]] {}

theorem sampleTransformer_blind : sampleTransformer.Blind := by
  have build : TaskTransformer.build {
      rules := [("start", { task := .list, outer := some (.convention .tree) }),
        ("neg", { task := .wrap, outer := some (.convention .inline) }),
        ("pick", { task := .first, outer := some (.convention .plain) }),
        ("drop", { task := .discard, outer := some (.convention .span) })]
      tokens := [("NAME", .upper)] } = .ok sampleTransformer := rfl
  exact TaskTransformer.blind_of_build build

theorem sampleTransformer_quiet : (sampleTransformer.goingBy .pure).Quiet sampleTree where
  node := by
    intro i l cs s mem items results
    simp only [sampleTree, Value.node, postorder, postorderAll, List.cons_append, List.nil_append,
      List.mem_cons, List.not_mem_nil, or_false, Value.tree.injEq, reduceCtorEq, false_or] at mem
    rcases mem with ⟨rfl, rfl, rfl, rfl⟩ | ⟨rfl, rfl, rfl, rfl⟩ | ⟨rfl, rfl, rfl, rfl⟩ |
        ⟨rfl, rfl, rfl, rfl⟩ | ⟨rfl, rfl, rfl, rfl⟩ | ⟨rfl, rfl, rfl, rfl⟩
    iterate 6
      obtain rfl := Except.ok.inj (results.symm.trans rfl)
      exact ⟨_, rfl⟩
  token := by
    intro tok mem
    simp only [sampleTree, Value.node, postorder, postorderAll, List.cons_append, List.nil_append,
      List.mem_cons, List.not_mem_nil, or_false, Value.token.injEq, reduceCtorEq] at mem
    subst mem
    exact ⟨_, rfl⟩

theorem sampleTree_unshared : sampleTree.Unshared := by
  unfold Value.Unshared
  decide

theorem strategies_agree_sample :
    sampleTransformer.Blind ∧ sampleTree.Unshared ∧ (sampleTransformer.goingBy .pure).Quiet sampleTree ∧
    ∃ x y z, ((Transformation.single (sampleTransformer.goingBy .pure)).run sampleTree).1 = .ok x ∧
      ((Transformation.single (sampleTransformer.goingBy .inPlace)).run sampleTree).1 = .ok y ∧
      ((Transformation.single (sampleTransformer.goingBy .inPlaceRecursive)).run sampleTree).1 =
        .ok z ∧ x.erased = y.erased ∧ x.erased = z.erased ∧
      x.same y = true ∧ x.same z = true ∧ y.same z = true :=
  ⟨sampleTransformer_blind, sampleTree_unshared, sampleTransformer_quiet,
    strategies_agree sampleTransformer_blind rfl sampleTree_unshared sampleTransformer_quiet⟩

end Transformer

end AxisLang
