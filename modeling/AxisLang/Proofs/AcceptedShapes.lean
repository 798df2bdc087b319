import AxisLang.Proofs.ShapeCheck

/-! Which arrays the check accepts.
The check goes through the axes of all variables together with the dimensions of their arrays. It
passes exactly if there are sizes of the names with which all plain axes agree, and all those products
whose factors have stood alone before. A product that comes too early is left to the comparison of the
numbers of elements at the end. -/
namespace AxisLang

namespace Shape

variable {σ τ : String → Nat} {known : List String}

theorem productSize?_eq (ns : List String) :
    productSize? (sizesOf σ known) ns =
      if ∀ n ∈ ns, n ∈ known then some (ns.map σ).prod else none := by
  have all : (ns.mapM fun n => (sizesOf σ known).lookup n) =
      if ∀ n ∈ ns, n ∈ known then some (ns.map σ) else none := by
    induction ns with
    | nil => rfl
    | cons n ns ih =>
      rw [List.mapM_cons, ih, lookup_sizesOf]
      by_cases first : n ∈ known
      · by_cases rest : ∀ m ∈ ns, m ∈ known
        · rw [if_pos first, if_pos rest, if_pos (List.forall_mem_cons.mpr ⟨first, rest⟩)]
          rfl
        · rw [if_pos first, if_neg rest, if_neg fun h => rest (List.forall_mem_cons.mp h).2]
          rfl
      · simp [first]
  rw [productSize?, all]
  split <;> simp [volume_eq_prod]

def step (sizes : Sizes) (d : Axis × Nat) : Except ExprError Sizes :=
  checkAxis sizes d.2 d.1

def Next (σ : String → Nat) (known : List String) (k : Nat) : Axis → Prop
  | .named n => k = σ n
  | .product ns => (∀ n ∈ ns, n ∈ known) → k = (ns.map σ).prod
  | .ellipsis => False

def plain? : Axis → Option String
  | .named n => some n
  | _ => none

def plainNames (scan : List (Axis × Nat)) : List String :=
  scan.filterMap fun d => plain? d.1

theorem mem_plainNames {scan : List (Axis × Nat)} {n : String} :
    n ∈ plainNames scan ↔ ∃ k, (.named n, k) ∈ scan := by
  rw [plainNames, List.mem_filterMap]
  constructor
  · rintro ⟨⟨a, k⟩, mem, name⟩
    cases a with
    | named m =>
      obtain rfl := Option.some.inj name
      exact ⟨k, mem⟩
    | product => cases name
    | ellipsis => cases name
  · rintro ⟨k, mem⟩
    exact ⟨_, mem, rfl⟩

/-- The sizes agree with a scan: with every plain axis, and with every product whose factors all stood
alone before it. -/
structure Agrees (σ : String → Nat) (scan : List (Axis × Nat)) : Prop where
  solid : ∀ d ∈ scan, d.1.isEllipsis = false
  named : ∀ n k, (.named n, k) ∈ scan → k = σ n
  product : ∀ front ns k back, scan = front ++ (.product ns, k) :: back →
    (∀ n ∈ ns, n ∈ plainNames front) → k = (ns.map σ).prod

theorem Agrees.congr {scan : List (Axis × Nat)} (h : Agrees σ scan)
    (same : ∀ n ∈ plainNames scan, σ n = τ n) : Agrees τ scan where
  solid := h.solid
  named n k mem := (h.named n k mem).trans (same n (mem_plainNames.mpr ⟨k, mem⟩))
  product front ns k back eq factors := by
    have sub : ∀ n ∈ plainNames front, n ∈ plainNames scan := by
      intro n mem
      rw [eq, plainNames, List.filterMap_append]
      exact List.mem_append_left _ mem
    rw [h.product front ns k back eq factors]
    congr 1
    exact List.map_congr_left fun n mem => same n (sub n (factors n mem))

theorem agrees_nil : Agrees σ [] where
  solid := by simp
  named := by simp
  product front ns k back eq := by simp at eq

theorem agrees_concat {scan : List (Axis × Nat)} {a : Axis} {k : Nat} :
    Agrees σ (scan ++ [(a, k)]) ↔ Agrees σ scan ∧ Next σ (plainNames scan) k a := by
  constructor
  · intro h
    refine ⟨⟨?_, ?_, ?_⟩, ?_⟩
    · exact fun d mem => h.solid d (List.mem_append_left _ mem)
    · exact fun n m mem => h.named n m (List.mem_append_left _ mem)
    · rintro front ns m back rfl factors
      exact h.product front ns m (back ++ [(a, k)]) (by simp) factors
    · cases a with
      | named n => exact h.named n k (by simp)
      | product ns => exact h.product scan ns k [] rfl
      | ellipsis =>
        have solid := h.solid (.ellipsis, k) (by simp)
        cases solid
  · rintro ⟨h, next⟩
    refine ⟨?_, ?_, ?_⟩
    · intro d mem
      rcases List.mem_append.mp mem with mem | mem
      · exact h.solid d mem
      · obtain rfl := List.mem_singleton.mp mem
        cases a with
        | ellipsis => exact next.elim
        | _ => rfl
    · intro n m mem
      rcases List.mem_append.mp mem with mem | mem
      · exact h.named n m mem
      · obtain ⟨rfl, rfl⟩ := Prod.mk.inj (List.mem_singleton.mp mem)
        exact next
    · intro front ns m back eq factors
      rcases List.eq_nil_or_concat back with rfl | ⟨back, last, rfl⟩
      · obtain ⟨rfl, same⟩ := List.append_inj' eq rfl
        obtain ⟨rfl, rfl⟩ := Prod.mk.inj (List.cons.inj same).1
        exact next factors
      · rw [List.concat_eq_append, ← List.cons_append, ← List.append_assoc] at eq
        exact h.product front ns m back (List.append_inj' eq rfl).1 factors

/-- What the check knows once the given names have stood alone. -/
def learned (σ : String → Nat) (ns : List String) : Sizes :=
  sizesOf σ ns.eraseDups

theorem learned_known {ns : List String} {n : String} (mem : n ∈ ns) :
    learned σ (ns ++ [n]) = learned σ ns := by
  rw [learned, eraseDups_append_cons mem, List.append_nil, learned]

theorem learned_new {ns : List String} {n : String} (new : n ∉ ns) :
    learned σ (ns ++ [n]) = learned σ ns ++ [(n, σ n)] := by
  have fresh : [n].removeAll ns = [n] := by simp [List.removeAll, new]
  rw [learned, List.eraseDups_append, fresh, learned, sizesOf, sizesOf, List.map_append]
  rfl

theorem learned_congr {ns : List String} (same : ∀ n ∈ ns, σ n = τ n) : learned σ ns = learned τ ns := by
  rw [learned, learned, sizesOf, sizesOf]
  refine List.map_congr_left fun n mem => ?_
  rw [same n (List.mem_eraseDups.mp mem)]

theorem lookup_learned (ns : List String) (n : String) :
    (learned σ ns).lookup n = if n ∈ ns then some (σ n) else none := by
  rw [learned, lookup_sizesOf]
  simp only [List.mem_eraseDups]

theorem step_product (ns fs : List String) (k : Nat) :
    step (learned σ ns) (.product fs, k) =
      if (∀ n ∈ fs, n ∈ ns) ∧ (fs.map σ).prod ≠ k then
        .error (.axisSizes (productTitle (.product fs)) [(fs.map σ).prod, k])
      else .ok (learned σ ns) := by
  rw [step, checkAxis, learned, productSize?_eq]
  simp only [List.mem_eraseDups]
  by_cases all : ∀ n ∈ fs, n ∈ ns
  · rw [if_pos all]
    by_cases size : (fs.map σ).prod = k
    · rw [if_neg fun h => h.2 size]
      exact if_pos size
    · rw [if_pos ⟨all, size⟩]
      exact if_neg size
  · rw [if_neg all, if_neg fun h => all h.1]

theorem step_named (ns : List String) (n : String) (k : Nat) :
    step (learned σ ns) (.named n, k) =
      if n ∈ ns then
        if σ n = k then .ok (learned σ ns) else .error (.axisSizes n [σ n, k])
      else .ok (learned σ ns ++ [(n, k)]) := by
  rw [step, checkAxis, lookup_learned]
  by_cases mem : n ∈ ns <;> simp [mem]

theorem step_next {ns : List String} {a : Axis} {k : Nat} (h : Next σ ns k a) :
    step (learned σ ns) (a, k) = .ok (learned σ (ns ++ (plain? a).toList)) := by
  cases a with
  | named n =>
    obtain rfl : k = σ n := h
    rw [step_named]
    by_cases mem : n ∈ ns
    · simp [mem, plain?, learned_known]
    · simp [mem, plain?, learned_new]
  | product fs =>
    have passes : ¬ ((∀ n ∈ fs, n ∈ ns) ∧ (fs.map σ).prod ≠ k) := fun ⟨all, other⟩ => other (h all).symm
    rw [step_product, if_neg passes]
    simp [plain?]
  | ellipsis => exact h.elim

theorem next_of_step {ns : List String} {a : Axis} {k : Nat} {sizes : Sizes}
    (h : step (learned σ ns) (a, k) = .ok sizes) :
    ∃ τ, (∀ n ∈ ns, σ n = τ n) ∧ Next τ ns k a ∧ sizes = learned τ (ns ++ (plain? a).toList) := by
  cases a with
  | named n =>
    rw [step_named] at h
    by_cases mem : n ∈ ns
    · rw [if_pos mem] at h
      by_cases size : σ n = k
      · rw [if_pos size] at h
        exact ⟨σ, fun _ _ => rfl, size.symm, by rw [← Except.ok.inj h]; exact (learned_known mem).symm⟩
      · rw [if_neg size] at h
        cases h
    · rw [if_neg mem] at h
      have same : ∀ m ∈ ns, σ m = Function.update σ n k m := by
        intro m hm
        have other : m ≠ n := fun eq => mem (eq ▸ hm)
        rw [Function.update_of_ne other]
      have own : k = Function.update σ n k n := by rw [Function.update_self]
      refine ⟨Function.update σ n k, same, own, ?_⟩
      rw [← Except.ok.inj h, plain?, Option.toList_some, learned_new mem, Function.update_self,
        learned_congr same]
  | product fs =>
    rw [step_product] at h
    split at h
    · cases h
    · next passes =>
      refine ⟨σ, fun _ _ => rfl, fun all => ?_, ?_⟩
      · by_contra other
        exact passes ⟨all, Ne.symm other⟩
      · rw [← Except.ok.inj h]
        simp [plain?]
  | ellipsis => cases h

theorem plainNames_concat (scan : List (Axis × Nat)) (d : Axis × Nat) :
    plainNames (scan ++ [d]) = plainNames scan ++ (plain? d.1).toList := by
  rw [plainNames, plainNames, List.filterMap_append]
  cases h : plain? d.1 <;> simp [h]

/-- The run lemma: a scan passes exactly if some sizes agree with it, and these are what is known
afterwards. -/
theorem foldlM_step_eq_ok {scan : List (Axis × Nat)} {sizes : Sizes} :
    scan.foldlM step [] = .ok sizes ↔ ∃ σ, Agrees σ scan ∧ sizes = learned σ (plainNames scan) := by
  induction scan using List.reverseRecOn generalizing sizes with
  | nil =>
    constructor
    · intro h
      exact ⟨fun _ => 0, agrees_nil, (Except.ok.inj h).symm⟩
    · rintro ⟨_, _, rfl⟩
      rfl
  | append_singleton scan d ih =>
    obtain ⟨a, k⟩ := d
    rw [List.foldlM_append, bind_eq_ok_iff, plainNames_concat]
    simp only [List.foldlM_cons, List.foldlM_nil, bind_pure, agrees_concat]
    constructor
    · rintro ⟨before, passed, last⟩
      obtain ⟨σ, agrees, rfl⟩ := ih.mp passed
      obtain ⟨τ, same, next, rfl⟩ := next_of_step last
      exact ⟨τ, ⟨agrees.congr same, next⟩, rfl⟩
    · rintro ⟨σ, ⟨agrees, next⟩, rfl⟩
      exact ⟨_, ih.mpr ⟨σ, agrees, rfl⟩, step_next next⟩

theorem checkAxes_eq_ok {axes : List Axis} {shape : Shape} {sizes sizes' : Sizes} :
    checkAxes sizes axes shape = .ok sizes' ↔
      axes.length ≤ shape.length ∧ (axes.zip shape).foldlM step sizes = .ok sizes' := by
  induction axes generalizing shape sizes with
  | nil =>
    rw [checkAxes, List.zip_nil_left, List.foldlM_nil]
    simp [pure, Except.pure]
  | cons a axes ih =>
    cases shape with
    | nil => simp [checkAxes]
    | cons k shape =>
      rw [checkAxes, List.zip_cons_cons, List.foldlM_cons, bind_eq_ok_iff, bind_eq_ok_iff]
      simp only [ih, List.length_cons, Nat.add_le_add_iff_right]
      constructor
      · rintro ⟨next, first, enough, rest⟩
        exact ⟨enough, next, first, rest⟩
      · rintro ⟨enough, next, first, rest⟩
        exact ⟨next, first, enough, rest⟩

def material (v : Variable) (shape : Shape) : List Axis :=
  materialize v.axes (v.axes.findIdx? Axis.isEllipsis) shape.length

structure Admits (v : Variable) (shape : Shape) : Prop where
  single : v.axes.countP Axis.isEllipsis ≤ 1
  rank : v.axes.findIdx? Axis.isEllipsis = none → shape.length = v.axes.length
  enough : (material v shape).length ≤ shape.length

theorem checkVariable_eq_ok {v : Variable} {shape : Shape} {sizes sizes' : Sizes} {axes : List Axis} :
    checkVariable sizes v shape = .ok (axes, sizes') ↔ Admits v shape ∧ axes = material v shape ∧
      ((material v shape).zip shape).foldlM step sizes = .ok sizes' := by
  rw [checkVariable, ellipsisPlace]
  by_cases single : v.axes.countP Axis.isEllipsis ≤ 1
  · rw [if_neg (by omega)]
    change (if _ then _ else _) = _ ↔ _
    by_cases rank : v.axes.findIdx? Axis.isEllipsis = none → shape.length = v.axes.length
    · have same : ((v.axes.findIdx? Axis.isEllipsis).isNone &&
          decide (shape.length ≠ v.axes.length)) = false := by
        cases place : v.axes.findIdx? Axis.isEllipsis with
        | none => simp [rank place]
        | some e => rfl
      rw [same]
      change (checkAxes sizes (material v shape) shape >>= fun sizes => pure (material v shape, sizes)) = _ ↔ _
      rw [bind_eq_ok_iff]
      simp only [checkAxes_eq_ok]
      constructor
      · rintro ⟨last, ⟨enough, passed⟩, result⟩
        obtain ⟨rfl, rfl⟩ := Prod.mk.inj (Except.ok.inj result)
        exact ⟨⟨single, rank, enough⟩, rfl, passed⟩
      · rintro ⟨admits, rfl, passed⟩
        exact ⟨sizes', ⟨admits.enough, passed⟩, rfl⟩
    · rw [Classical.not_imp] at rank
      have other : ((v.axes.findIdx? Axis.isEllipsis).isNone &&
          decide (shape.length ≠ v.axes.length)) = true := by simp [rank.1, rank.2]
      rw [other]
      constructor
      · intro h
        cases h
      · intro h
        exact absurd (h.1.rank rank.1) rank.2
  · rw [if_pos (by omega)]
    constructor
    · intro h
      cases h
    · intro h
      exact absurd h.1.single single

def scanOf (xs : List (Variable × Shape)) : List (Axis × Nat) :=
  xs.flatMap fun x => (material x.1 x.2).zip x.2

theorem checkVariables_eq_ok {vs : List Variable} {shapes : List Shape} {sizes sizes' : Sizes}
    {all : List (List Axis)} :
    checkVariables sizes vs shapes = .ok (all, sizes') ↔
      (∀ x ∈ vs.zip shapes, Admits x.1 x.2) ∧ all = (vs.zip shapes).map (fun x => material x.1 x.2) ∧
        (scanOf (vs.zip shapes)).foldlM step sizes = .ok sizes' := by
  induction vs generalizing shapes sizes sizes' all with
  | nil => simp [checkVariables, scanOf, pure, Except.pure, eq_comm]
  | cons v vs ih =>
    cases shapes with
    | nil => simp [checkVariables, scanOf, pure, Except.pure, eq_comm]
    | cons shape shapes =>
      rw [checkVariables, bind_eq_ok_iff]
      simp only [Prod.exists, bind_eq_ok_iff, checkVariable_eq_ok, ih, List.zip_cons_cons,
        List.forall_mem_cons, List.map_cons, scanOf, List.flatMap_cons, List.foldlM_append]
      constructor
      · rintro ⟨axes, next, ⟨admits, rfl, first⟩, more, last, ⟨others, rfl, rest⟩, result⟩
        obtain ⟨rfl, rfl⟩ := Prod.mk.inj (Except.ok.inj result)
        exact ⟨⟨admits, others⟩, rfl, next, first, rest⟩
      · rintro ⟨⟨admits, others⟩, rfl, next, first, rest⟩
        exact ⟨_, next, ⟨admits, rfl, first⟩, _, _, ⟨others, rfl, rest⟩, rfl⟩

theorem splitShape_eq_ok {ns : List String} {axes : List Axis} {split : Shape} :
    splitShape (learned σ ns) axes = .ok split ↔
      (∀ n ∈ axes.flatMap Axis.names, n ∈ ns) ∧ split = (axes.flatMap Axis.names).map σ := by
  rw [splitShape]
  induction axes.flatMap Axis.names generalizing split with
  | nil => simp [pure, Except.pure, eq_comm]
  | cons n names ih =>
    rw [List.mapM_cons, bind_eq_ok_iff, lookup_learned]
    by_cases mem : n ∈ ns
    · simp only [if_pos mem, bind_eq_ok_iff, ih, List.forall_mem_cons, List.map_cons]
      constructor
      · rintro ⟨k, size, rest, ⟨others, rfl⟩, result⟩
        rw [← Except.ok.inj size] at result
        exact ⟨⟨mem, others⟩, (Except.ok.inj result).symm⟩
      · rintro ⟨⟨_, others⟩, rfl⟩
        exact ⟨σ n, rfl, _, ⟨others, rfl⟩, rfl⟩
    · simp [mem]

theorem splitAll_eq_ok {ns : List String} {vs : List Variable} {shapes news : List Shape} :
    splitAll (learned σ ns) ((vs.zip shapes).map fun x => material x.1 x.2) shapes = .ok news ↔
      (∀ x ∈ vs.zip shapes, (∀ n ∈ (material x.1 x.2).flatMap Axis.names, n ∈ ns) ∧
        volume (((material x.1 x.2).flatMap Axis.names).map σ) = volume x.2) ∧
      news = (vs.zip shapes).map fun x => ((material x.1 x.2).flatMap Axis.names).map σ := by
  induction vs generalizing shapes news with
  | nil => simp [splitAll, eq_comm]
  | cons v vs ih =>
    cases shapes with
    | nil => simp [splitAll, eq_comm]
    | cons shape shapes =>
      rw [List.zip_cons_cons, List.map_cons, splitAll, bind_eq_ok_iff]
      simp only [splitTo, bind_eq_ok_iff, splitShape_eq_ok, ih, List.forall_mem_cons, List.map_cons]
      constructor
      · rintro ⟨split, ⟨names, ⟨inside, rfl⟩, own⟩, rest, ⟨others, rfl⟩, result⟩
        split at own
        · next same =>
          rw [← Except.ok.inj own] at result
          exact ⟨⟨⟨inside, same⟩, others⟩, (Except.ok.inj result).symm⟩
        · cases own
      · rintro ⟨⟨⟨inside, same⟩, others⟩, rfl⟩
        exact ⟨_, ⟨_, ⟨inside, rfl⟩, if_pos same⟩, _, ⟨others, rfl⟩, rfl⟩

def dimNames (x : Variable × Shape) : List String :=
  (material x.1 x.2).flatMap Axis.names

structure Accepts (σ : String → Nat) (xs : List (Variable × Shape)) : Prop where
  admits : ∀ x ∈ xs, Admits x.1 x.2
  agrees : Agrees σ (scanOf xs)
  known : ∀ x ∈ xs, ∀ n ∈ dimNames x, n ∈ plainNames (scanOf xs)
  volumes : ∀ x ∈ xs, volume ((dimNames x).map σ) = volume x.2

/-- The criterion: the check passes exactly if some sizes are accepted, and then splits by them. -/
theorem check_eq_ok {vs : List Variable} {shapes news : List Shape} :
    check vs shapes = .ok news ↔ ∃ σ, Accepts σ (vs.zip shapes) ∧
      news = (vs.zip shapes).map fun x => (dimNames x).map σ := by
  rw [check, bind_eq_ok_iff]
  simp only [Prod.exists, checkVariables_eq_ok, foldlM_step_eq_ok]
  constructor
  · rintro ⟨axes, sizes, ⟨admits, rfl, σ, agrees, rfl⟩, split⟩
    obtain ⟨each, rfl⟩ := splitAll_eq_ok.mp split
    exact ⟨σ, ⟨admits, agrees, fun x mem => (each x mem).1, fun x mem => (each x mem).2⟩, rfl⟩
  · rintro ⟨σ, accepts, rfl⟩
    refine ⟨_, _, ⟨accepts.admits, rfl, σ, accepts.agrees, rfl⟩, splitAll_eq_ok.mpr ⟨?_, rfl⟩⟩
    exact fun x mem => ⟨accepts.known x mem, accepts.volumes x mem⟩

end Shape

end AxisLang
