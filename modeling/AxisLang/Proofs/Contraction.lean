import AxisLang.Tensor.Contraction
import AxisLang.Proofs.ShapeCheck

/-! Contraction without ellipses.
Every axis name has a letter of its own and every dimension the size of its name. The sizes then never
clash, no dimension is stretched, and each element of the result is a sum over the names that the
output lacks. Wrapping around at each step is the same as wrapping around once at the end. -/
namespace AxisLang

@[simp] theorem word_word_add (n m : Int) : word (word n + m) = word (n + m) := Int.bmod_add_bmod

@[simp] theorem word_add_word (n m : Int) : word (n + word m) = word (n + m) := Int.add_bmod_bmod

@[simp] theorem word_word_mul (n m : Int) : word (word n * m) = word (n * m) := Int.bmod_mul_bmod

theorem word_foldl_mul {α : Type} (g : α → Int) (xs : List α) (a : Int) :
    word (xs.foldl (fun acc x => word (acc * g x)) a) = word (a * (xs.map g).prod) := by
  induction xs generalizing a with
  | nil => simp
  | cons x xs ih => rw [List.foldl_cons, ih, word_word_mul, List.map_cons, List.prod_cons, Int.mul_assoc]

theorem foldl_word_add {α : Type} {f g : α → Int} (h : ∀ x, word (f x) = word (g x)) (xs : List α)
    (a : Int) :
    xs.foldl (fun acc x => word (acc + f x)) (word a) = word (a + (xs.map g).sum) := by
  induction xs generalizing a with
  | nil => simp
  | cons x xs ih =>
    have step : word (word a + f x) = word (a + g x) := by
      rw [word_word_add, ← word_add_word, h, word_add_word]
    rw [List.foldl_cons, step, ih, List.map_cons, List.sum_cons, Int.add_assoc]

theorem mem_summed {names out : List String} {n : String} :
    n ∈ summed names out ↔ n ∈ names ∧ n ∉ out := by
  simp [summed]

theorem nodup_summed (names out : List String) : (summed names out).Nodup :=
  (nodup_eraseDups names).filter _

namespace Contraction

theorem total_eq (ops : List (List (Option Nat) × Tensor)) (out : List Nat) (rest : List (List Nat)) :
    total ops out rest =
      word (rest.map fun r => (ops.map fun o => o.2.get (project o.1 (out ++ r))).prod).sum := by
  have each (r : List Nat) : word (term ops (out ++ r)) =
      word (ops.map fun o => o.2.get (project o.1 (out ++ r))).prod := by
    have product := word_foldl_mul (fun o => o.2.get (project o.1 (out ++ r))) ops 1
    rwa [Int.one_mul] at product
  have sum := foldl_word_add each rest 0
  rwa [Int.zero_add] at sum

variable {σ : String → Nat} {letter : String → String} {names : List String}

def dimOf (letter : String → String) (n : String) : Dim :=
  .letter (letter n)

def subscriptsOf (letter : String → String) (ns : List String) : List Subscript :=
  ns.map fun n => .letter (letter n)

def sized (letter : String → String) (σ : String → Nat) (ns : List String) : List (Dim × Nat) :=
  ns.map fun n => (dimOf letter n, σ n)

/-- An input of a contraction, its dimensions told by names. -/
def operandOf (letter : String → String) (x : List String × Tensor) : Operand :=
  ⟨x.1.map (dimOf letter), x.2⟩

theorem restCount_subscriptsOf (ns : List String) : restCount (subscriptsOf letter ns) = 0 := by
  rw [restCount, List.count_eq_zero]
  simp [subscriptsOf]

theorem expand_subscriptsOf (k : Nat) (ns : List String) :
    expand k (subscriptsOf letter ns) = ns.map (dimOf letter) := by
  rw [expand, subscriptsOf, List.flatMap_map]
  exact List.map_eq_flatMap.symm

theorem operands?_subscriptsOf {xs : List (List String × Tensor)}
    (fits : ∀ x ∈ xs, x.2.shape = x.1.map σ) :
    operands? (xs.map fun x => subscriptsOf letter x.1) (xs.map (·.2)) =
      some (xs.map (operandOf letter), 0) := by
  induction xs with
  | nil => rfl
  | cons x xs ih =>
    rw [List.forall_mem_cons] at fits
    have rank : x.2.rank = x.1.length := by rw [Tensor.rank, fits.1, List.length_map]
    have spares : sparesOf? (subscriptsOf letter x.1) x.2.rank = some 0 := by
      have length : (subscriptsOf letter x.1).length = x.1.length := List.length_map ..
      simp [sparesOf?, restCount_subscriptsOf, rank, length]
    rw [List.map_cons, List.map_cons, operands?, spares, ih fits.2]
    simp [operandOf, expand_subscriptsOf]

theorem dimOf_inj {n m : String} (inj : ∀ n ∈ names, ∀ m ∈ names, letter n = letter m → n = m)
    (hn : n ∈ names) (hm : m ∈ names) (same : dimOf letter n = dimOf letter m) : n = m :=
  inj n hn m hm (Dim.letter.inj same)

theorem lookup_sized {ns : List String} {n : String}
    (inj : ∀ n ∈ names, ∀ m ∈ names, letter n = letter m → n = m) (all : ∀ m ∈ ns, m ∈ names)
    (hn : n ∈ names) :
    (sized letter σ ns).lookup (dimOf letter n) = if n ∈ ns then some (σ n) else none :=
  lookup_map fun m hm => dimOf_inj inj (all m hm) hn

theorem addSize?_known {ns : List String} {n : String}
    (inj : ∀ n ∈ names, ∀ m ∈ names, letter n = letter m → n = m) (all : ∀ m ∈ ns, m ∈ names)
    (mem : n ∈ ns) :
    addSize? (sized letter σ ns) (dimOf letter n, σ n) = some (sized letter σ ns) := by
  have join : joinSize? (σ n) (σ n) = some (σ n) := if_pos rfl
  rw [addSize?, lookup_sized inj all (all n mem), if_pos mem]
  simp only [join, Option.map_some, Option.some.injEq, sized, List.map_map]
  refine List.map_congr_left fun m hm => ?_
  by_cases same : dimOf letter m = dimOf letter n
  · obtain rfl := dimOf_inj inj (all m hm) (all n mem) same
    simp
  · simp [same]

theorem addSize?_new {ns : List String} {n : String}
    (inj : ∀ n ∈ names, ∀ m ∈ names, letter n = letter m → n = m) (all : ∀ m ∈ ns, m ∈ names)
    (hn : n ∈ names) (new : n ∉ ns) :
    addSize? (sized letter σ ns) (dimOf letter n, σ n) = some (sized letter σ (ns ++ [n])) := by
  rw [addSize?, lookup_sized inj all hn, if_neg new]
  simp [sized]

theorem foldlM_addSize? (ns ms : List String)
    (inj : ∀ n ∈ names, ∀ m ∈ names, letter n = letter m → n = m) (all : ∀ m ∈ ns, m ∈ names)
    (more : ∀ m ∈ ms, m ∈ names) (distinct : ns.Nodup) :
    (sized letter σ ms).foldlM addSize? (sized letter σ ns) =
      some (sized letter σ (ns ++ ms).eraseDups) := by
  induction ms generalizing ns with
  | nil =>
    rw [List.append_nil, eraseDups_of_nodup distinct]
    rfl
  | cons n ms ih =>
    rw [List.forall_mem_cons] at more
    change (addSize? (sized letter σ ns) (dimOf letter n, σ n) >>=
      (sized letter σ ms).foldlM addSize?) = _
    by_cases mem : n ∈ ns
    · rw [addSize?_known inj all mem, eraseDups_append_cons mem]
      exact ih ns all more.2 distinct
    · rw [List.append_cons, addSize?_new inj all more.1 mem]
      refine ih (ns ++ [n]) ?_ more.2 ?_
      · intro m hm
        rcases List.mem_append.mp hm with hm | hm
        · exact all m hm
        · exact List.mem_singleton.mp hm ▸ more.1
      · exact List.concat_eq_append ▸ List.Nodup.concat mem distinct

def allNames (xs : List (List String × Tensor)) : List String :=
  xs.flatMap (·.1)

theorem sizes?_operandOf {xs : List (List String × Tensor)}
    (inj : ∀ n ∈ allNames xs, ∀ m ∈ allNames xs, letter n = letter m → n = m)
    (fits : ∀ x ∈ xs, x.2.shape = x.1.map σ) :
    sizes? (xs.map (operandOf letter)) = some (sized letter σ (allNames xs).eraseDups) := by
  have dims : ((xs.map (operandOf letter)).flatMap fun o => o.dims.zip o.tensor.shape) =
      sized letter σ (allNames xs) := by
    rw [List.flatMap_map, sized, allNames, List.map_flatMap]
    refine List.flatMap_congr fun x mem => ?_
    rw [operandOf, fits x mem, List.zip_map']
  have run := foldlM_addSize? (σ := σ) [] (allNames xs) inj (by simp) (fun _ h => h) List.nodup_nil
  rw [sizes?, dims]
  exact run

theorem isDiagonal_iff {o : Operand} : isDiagonal o = true ↔ ∀ d n m,
    (d, n) ∈ o.dims.zip o.tensor.shape → (d, m) ∈ o.dims.zip o.tensor.shape → n = m := by
  simp only [isDiagonal, List.all_eq_true, Bool.or_eq_true, decide_eq_true_eq, beq_iff_eq, Prod.forall]
  constructor
  · intro h d n m first second
    exact (h d n first d m second).resolve_left fun differ => differ rfl
  · intro h d n first e m second
    rw [or_iff_not_imp_left, not_not]
    rintro rfl
    exact h d n m first second

theorem isDiagonal_operandOf {x : List String × Tensor}
    (inj : ∀ n ∈ names, ∀ m ∈ names, letter n = letter m → n = m) (own : ∀ n ∈ x.1, n ∈ names)
    (fits : x.2.shape = x.1.map σ) : isDiagonal (operandOf letter x) = true := by
  rw [isDiagonal_iff, operandOf, fits, List.zip_map']
  intro d n m first second
  obtain ⟨a, ha, eq⟩ := List.mem_map.mp first
  obtain ⟨rfl, rfl⟩ := Prod.mk.inj eq
  obtain ⟨b, hb, eq⟩ := List.mem_map.mp second
  obtain ⟨same, rfl⟩ := Prod.mk.inj eq
  rw [dimOf_inj inj (own b hb) (own a ha) same]

theorem allDistinct_eq (ds : List Dim) : allDistinct ds = true ↔ ds.Nodup := by
  induction ds with
  | nil => simp [allDistinct]
  | cons d ds ih => simp [allDistinct, ih]

theorem outputDims?_subscriptsOf {out : List String}
    (inj : ∀ n ∈ names, ∀ m ∈ names, letter n = letter m → n = m) (distinct : out.Nodup)
    (known : ∀ n ∈ out, n ∈ names) :
    outputDims? (subscriptsOf letter out) 0 (sized letter σ names.eraseDups) =
      some (out.map (dimOf letter)) := by
  have apart : allDistinct (out.map (dimOf letter)) = true := by
    rw [allDistinct_eq]
    refine distinct.map_on fun n hn m hm same => ?_
    exact dimOf_inj inj (known n hn) (known m hm) same
  have found : (out.map (dimOf letter)).all
      (fun d => ((sized letter σ names.eraseDups).lookup d).isSome) = true := by
    rw [List.all_map, List.all_eq_true]
    intro n hn
    have look := lookup_sized (σ := σ) inj (fun m hm => List.mem_eraseDups.mp hm) (known n hn)
    rw [if_pos (List.mem_eraseDups.mpr (known n hn))] at look
    simp [look]
  simp [outputDims?, restCount_subscriptsOf, expand_subscriptsOf, apart, found]

theorem getD_idxOf_map {ns : List String} {n : String} (κ : String → Nat)
    (inj : ∀ n ∈ names, ∀ m ∈ names, letter n = letter m → n = m) (all : ∀ m ∈ ns, m ∈ names)
    (mem : n ∈ ns) :
    (ns.map κ).getD ((ns.map (dimOf letter)).idxOf (dimOf letter n)) 0 = κ n := by
  induction ns with
  | nil => cases mem
  | cons m ns ih =>
    rw [List.forall_mem_cons] at all
    by_cases same : dimOf letter m = dimOf letter n
    · have mem' : n ∈ names := by
        rcases List.mem_cons.mp mem with rfl | mem
        · exact all.1
        · exact all.2 n mem
      obtain rfl := dimOf_inj inj all.1 mem' same
      simp
    · have other : n ≠ m := fun h => same (h ▸ rfl)
      have rest := ih all.2 ((List.mem_cons.mp mem).resolve_left other)
      rw [List.map_cons, List.map_cons, List.idxOf_cons_ne _ same, List.getD_cons_succ]
      exact rest

theorem project_places {all : List String} {x : List String × Tensor} {κ : String → Nat}
    (inj : ∀ n ∈ names, ∀ m ∈ names, letter n = letter m → n = m) (sub : ∀ m ∈ all, m ∈ names)
    (own : ∀ n ∈ x.1, n ∈ all) (fits : x.2.shape = x.1.map σ) (bound : ∀ n ∈ x.1, κ n < σ n) :
    project (places (all.map (dimOf letter)) (operandOf letter x)) (all.map κ) = x.1.map κ := by
  rw [places, operandOf, fits, List.zip_map', List.map_map, project, List.map_map]
  refine List.map_congr_left fun n hn => ?_
  by_cases one : σ n = 1
  · have zero : κ n = 0 := by
      have below := bound n hn
      omega
    simp [one, zero]
  · simp only [Function.comp_apply, if_neg one]
    exact getD_idxOf_map κ inj sub (own n hn)

theorem filter_sized {out : List String}
    (inj : ∀ n ∈ names, ∀ m ∈ names, letter n = letter m → n = m) (known : ∀ n ∈ out, n ∈ names) :
    ((sized letter σ names.eraseDups).map (·.1)).filter
        (fun d => !(out.map (dimOf letter)).contains d) = (summed names out).map (dimOf letter) := by
  rw [sized, List.map_map, List.filter_map, summed]
  congr 1
  refine List.filter_congr fun n hn => ?_
  have same : dimOf letter n ∈ out.map (dimOf letter) ↔ n ∈ out := by
    rw [List.mem_map]
    constructor
    · rintro ⟨m, hm, same⟩
      exact dimOf_inj inj (known m hm) (List.mem_eraseDups.mp hn) same ▸ hm
    · exact fun h => ⟨n, h, rfl⟩
  simp only [Function.comp_apply, List.contains_eq_mem, same]

theorem map_sizeOf {ns : List String}
    (inj : ∀ n ∈ names, ∀ m ∈ names, letter n = letter m → n = m) (all : ∀ m ∈ ns, m ∈ names) :
    ((ns.map (dimOf letter)).map fun d => ((sized letter σ names.eraseDups).lookup d).getD 0) =
      ns.map σ := by
  rw [List.map_map]
  refine List.map_congr_left fun n hn => ?_
  have look := lookup_sized (σ := σ) inj (fun m hm => List.mem_eraseDups.mp hm) (all n hn)
  rw [if_pos (List.mem_eraseDups.mpr (all n hn))] at look
  simp [look]

/-- Contraction by names: an element of the result is the sum over the names that the output lacks. -/
theorem contract?_names {xs : List (List String × Tensor)} {out : List String} (some : xs ≠ [])
    (inj : ∀ n ∈ allNames xs, ∀ m ∈ allNames xs, letter n = letter m → n = m)
    (distinct : out.Nodup) (known : ∀ n ∈ out, n ∈ allNames xs)
    (fits : ∀ x ∈ xs, x.2.shape = x.1.map σ) :
    ∃ f, contract? ⟨xs.map fun x => subscriptsOf letter x.1, subscriptsOf letter out⟩ (xs.map (·.2)) =
        .some (Tensor.ofFn (out.map σ) f) ∧
      ∀ ι : String → Nat, (∀ n ∈ out, ι n < σ n) → f (out.map ι) =
        word (sumOver σ (summed (allNames xs) out)
          (fun κ => (xs.map fun x => x.2.get (x.1.map κ)).prod) ι) := by
  have rest : ∀ n ∈ summed (allNames xs) out, n ∈ allNames xs := fun n h => (mem_summed.mp h).1
  have all : ∀ n ∈ out ++ summed (allNames xs) out, n ∈ allNames xs := by
    intro n hn
    exact (List.mem_append.mp hn).elim (known n) (rest n)
  refine ⟨fun i => total (xs.map fun x => (places ((out ++ summed (allNames xs) out).map (dimOf letter))
      (operandOf letter x), x.2)) i (indices ((summed (allNames xs) out).map σ)), ?_, ?_⟩
  · have nonempty : (xs.map (·.2)).isEmpty = false := by simpa using some
    have diagonal : (xs.map (operandOf letter)).all isDiagonal = true := by
      rw [List.all_map, List.all_eq_true]
      intro x hx
      exact isDiagonal_operandOf inj (fun n hn => List.mem_flatMap.mpr ⟨x, hx, hn⟩) (fits x hx)
    rw [contract?, nonempty, operands?_subscriptsOf fits]
    simp only [Option.bind_eq_bind, Option.bind_some, diagonal, sizes?_operandOf inj fits,
      outputDims?_subscriptsOf inj distinct known, evaluate, filter_sized inj known,
      map_sizeOf inj known, map_sizeOf inj rest, List.map_map, List.map_append]
    rfl
  · intro ι bound
    dsimp only
    rw [total_eq, sum_indices (ι := ι) (nodup_summed _ _)]
    congr 1
    refine sumOver_congr fun κ below same => ?_
    have outer : out.map ι = out.map κ := by
      refine List.map_congr_left fun n hn => (same n ?_).symm
      exact fun h => (mem_summed.mp h).2 hn
    have inside : ∀ n ∈ allNames xs, n ∈ out ++ summed (allNames xs) out ∧ κ n < σ n := by
      intro n hn
      by_cases h : n ∈ out
      · refine ⟨List.mem_append_left _ h, ?_⟩
        rw [same n fun h' => (mem_summed.mp h').2 h]
        exact bound n h
      · have mem := mem_summed.mpr ⟨hn, h⟩
        exact ⟨List.mem_append_right _ mem, below n mem⟩
    rw [outer, ← List.map_append, List.map_map]
    congr 1
    refine List.map_congr_left fun x hx => ?_
    have own : ∀ n ∈ x.1, n ∈ allNames xs := fun n hn => List.mem_flatMap.mpr ⟨x, hx, hn⟩
    rw [Function.comp_apply, project_places inj all (fun n hn => (inside n (own n hn)).1)
      (fits x hx) fun n hn => (inside n (own n hn)).2]

end Contraction

end AxisLang
