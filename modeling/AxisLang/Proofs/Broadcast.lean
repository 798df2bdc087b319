import AxisLang.Proofs.Contraction

/-! When a contraction succeeds.
The sizes that the operands give to one index are joined, a one being stretched to any other size. All
of them join exactly if any two do; those of one operand must be equal. Apart from that, every term must
have as many letters as its array has dimensions, ellipsis aside, and the output must name each of its
indices once. -/
namespace AxisLang

namespace Contraction

/-- Any two sizes of an index are equal, or one of them is one. -/
def Compatible (entries : List (Dim × Nat)) : Prop :=
  ∀ d n m, (d, n) ∈ entries → (d, m) ∈ entries → n = m ∨ n = 1 ∨ m = 1

/-- The size that all sizes of an index join to. -/
def Joined (entries : List (Dim × Nat)) (d : Dim) (m : Nat) : Prop :=
  (d, m) ∈ entries ∧ ∀ n, (d, n) ∈ entries → n = 1 ∨ n = m

theorem joinSize?_eq_some {a b m : Nat} :
    joinSize? a b = some m ↔ (m = a ∨ m = b) ∧ (a = 1 ∨ a = m) ∧ (b = 1 ∨ b = m) := by
  unfold joinSize?
  split_ifs <;> simp only [Option.some.injEq, false_iff] <;> omega

theorem joinSize?_isSome {a b : Nat} : (joinSize? a b).isSome ↔ a = b ∨ a = 1 ∨ b = 1 := by
  unfold joinSize?
  split_ifs <;> simp <;> omega

theorem lookup_map_replace (sizes : List (Dim × Nat)) (d d' : Dim) (m : Nat) :
    (sizes.map fun e => if e.1 = d then (e.1, m) else e).lookup d' =
      if d' = d then (sizes.lookup d').map fun _ => m else sizes.lookup d' := by
  induction sizes with
  | nil => simp
  | cons e sizes ih =>
    obtain ⟨x, n⟩ := e
    rw [List.map_cons, List.lookup_cons]
    by_cases here : d' = x
    · subst here
      by_cases own : d' = d <;> simp [own]
    · have other : (d' == x) = false := beq_false_of_ne here
      by_cases own : x = d
      · simp only [own, if_true, List.lookup_cons, ih]
        rw [← own, other]
      · simp only [own, if_false, List.lookup_cons, other, ih]

theorem lookup_concat (sizes : List (Dim × Nat)) (d d' : Dim) (n : Nat) :
    (sizes ++ [(d, n)]).lookup d' = (sizes.lookup d').or (if d' = d then some n else none) := by
  rw [List.lookup_append, List.lookup_cons]
  by_cases same : d' = d
  · simp [same]
  · rw [beq_false_of_ne same, if_neg same]
    rfl

theorem lookup_addSize? {sizes next : List (Dim × Nat)} {d d' : Dim} {n : Nat}
    (added : addSize? sizes (d, n) = some next) :
    next.lookup d' =
      if d' = d then
        match sizes.lookup d' with
        | none => some n
        | some m => joinSize? m n
      else sizes.lookup d' := by
  rw [addSize?] at added
  cases size : sizes.lookup d with
  | none =>
    simp only [size, Option.some.injEq] at added
    subst added
    rw [lookup_concat]
    by_cases own : d' = d <;> simp [own, size]
  | some m =>
    simp only [size] at added
    obtain ⟨k, joins, rfl⟩ := Option.map_eq_some_iff.mp added
    rw [lookup_map_replace]
    by_cases own : d' = d
    · simp [own, size, joins]
    · rw [if_neg own, if_neg own]

/-- What is known after a list of sizes: for each index the size that they join to. -/
def Knows (sizes entries : List (Dim × Nat)) : Prop :=
  ∀ d, (∀ m, sizes.lookup d = some m → Joined entries d m) ∧
    (sizes.lookup d = none → ∀ n, (d, n) ∉ entries)

theorem Joined.concat_other {entries : List (Dim × Nat)} {d d' : Dim} {n m : Nat}
    (h : Joined entries d' m) (other : d' ≠ d) : Joined (entries ++ [(d, n)]) d' m := by
  refine ⟨List.mem_append_left _ h.1, fun k mem => ?_⟩
  rcases List.mem_append.mp mem with mem | mem
  · exact h.2 k mem
  · exact absurd (Prod.mk.inj (List.mem_singleton.mp mem)).1 other

theorem Joined.concat_own {entries : List (Dim × Nat)} {d : Dim} {n m k : Nat}
    (h : Joined entries d m) (joins : joinSize? m n = some k) : Joined (entries ++ [(d, n)]) d k := by
  obtain ⟨one, first, second⟩ := joinSize?_eq_some.mp joins
  refine ⟨?_, fun l mem => ?_⟩
  · rcases one with rfl | rfl
    · exact List.mem_append_left _ h.1
    · simp
  · rcases List.mem_append.mp mem with mem | mem
    · have known := h.2 l mem
      omega
    · obtain ⟨_, rfl⟩ := Prod.mk.inj (List.mem_singleton.mp mem)
      exact second

theorem Joined.first {entries : List (Dim × Nat)} {d : Dim} {n : Nat} (new : ∀ k, (d, k) ∉ entries) :
    Joined (entries ++ [(d, n)]) d n := by
  refine ⟨by simp, fun k mem => ?_⟩
  rcases List.mem_append.mp mem with mem | mem
  · exact absurd mem (new k)
  · exact .inr (Prod.mk.inj (List.mem_singleton.mp mem)).2

theorem Knows.addSize? {sizes entries next : List (Dim × Nat)} {d : Dim} {n : Nat}
    (h : Knows sizes entries) (added : addSize? sizes (d, n) = some next) :
    Knows next (entries ++ [(d, n)]) := by
  intro d'
  have old := h d'
  rw [lookup_addSize? added]
  by_cases own : d' = d
  · subst own
    rw [if_pos rfl]
    cases size : sizes.lookup d' with
    | none =>
      refine ⟨fun m found => ?_, fun missing => nomatch missing⟩
      obtain rfl := Option.some.inj found
      exact .first (old.2 size)
    | some m =>
      refine ⟨fun k joins => (old.1 m size).concat_own joins, fun clash => ?_⟩
      rw [Contraction.addSize?, size] at added
      simp only [clash, Option.map_none, reduceCtorEq] at added
  · rw [if_neg own]
    refine ⟨fun m found => (old.1 m found).concat_other own, fun missing k mem => ?_⟩
    rcases List.mem_append.mp mem with mem | mem
    · exact old.2 missing k mem
    · exact own (Prod.mk.inj (List.mem_singleton.mp mem)).1

theorem foldlM_knows {entries sizes : List (Dim × Nat)}
    (h : entries.foldlM addSize? [] = some sizes) : Knows sizes entries := by
  induction entries using List.reverseRecOn generalizing sizes with
  | nil =>
    obtain rfl := Option.some.inj h
    exact fun d => ⟨by simp, by simp⟩
  | append_singleton entries e ih =>
    rw [List.foldlM_append] at h
    obtain ⟨before, passed, last⟩ := Option.bind_eq_some_iff.mp h
    change (Contraction.addSize? before e >>= pure) = some sizes at last
    rw [bind_pure] at last
    exact (ih passed).addSize? last

theorem foldlM_isSome_iff {entries : List (Dim × Nat)} :
    (entries.foldlM addSize? []).isSome ↔ Compatible entries := by
  constructor
  · intro h
    obtain ⟨sizes, passed⟩ := Option.isSome_iff_exists.mp h
    intro d n m hn hm
    have knows := foldlM_knows passed d
    cases size : sizes.lookup d with
    | none => exact absurd hn (knows.2 size n)
    | some k =>
      have joined := (knows.1 k size).2
      have first := joined n hn
      have second := joined m hm
      omega
  · intro h
    induction entries using List.reverseRecOn with
    | nil => rfl
    | append_singleton entries e ih =>
      obtain ⟨d, n⟩ := e
      have before := ih fun d n m hn hm =>
        h d n m (List.mem_append_left _ hn) (List.mem_append_left _ hm)
      obtain ⟨sizes, passed⟩ := Option.isSome_iff_exists.mp before
      rw [List.foldlM_append, passed]
      change (addSize? sizes (d, n) >>= pure).isSome = true
      rw [bind_pure, addSize?]
      cases size : sizes.lookup d with
      | none => rfl
      | some m =>
        have joined := ((foldlM_knows passed d).1 m size).1
        rw [Option.isSome_map, joinSize?_isSome]
        exact h d m n (List.mem_append_left _ joined) (by simp)

theorem letters_le_of_sparesOf? {ss : List Subscript} {rank : Nat} (h : (sparesOf? ss rank).isSome) :
    ss.length - restCount ss ≤ rank := by
  unfold sparesOf? at h
  split at h <;> simp_all

/-- How many dimensions of its array the ellipsis of a term stands for. -/
def spareRank (x : List Subscript × Tensor) : Nat :=
  (sparesOf? x.1 x.2.rank).getD 0

def operandAt (x : List Subscript × Tensor) : Operand :=
  ⟨expand (spareRank x) x.1, x.2⟩

def mostSpares (xs : List (List Subscript × Tensor)) : Nat :=
  (xs.map spareRank).foldr max 0

def entriesOf (xs : List (List Subscript × Tensor)) : List (Dim × Nat) :=
  xs.flatMap fun x => (expand (spareRank x) x.1).zip x.2.shape

theorem operands?_eq_some {terms : List (List Subscript)} {ts : List Tensor} {ops : List Operand}
    {most : Nat} :
    operands? terms ts = some (ops, most) ↔ terms.length = ts.length ∧
      (∀ x ∈ terms.zip ts, (sparesOf? x.1 x.2.rank).isSome) ∧
      ops = (terms.zip ts).map operandAt ∧ most = mostSpares (terms.zip ts) := by
  induction terms generalizing ts ops most with
  | nil =>
    cases ts with
    | nil =>
      constructor
      · intro h
        obtain ⟨rfl, rfl⟩ := Prod.mk.inj (Option.some.inj h)
        exact ⟨rfl, by simp, rfl, rfl⟩
      · rintro ⟨_, _, rfl, rfl⟩
        rfl
    | cons t ts => simp [operands?]
  | cons ss terms ih =>
    cases ts with
    | nil => simp [operands?]
    | cons t ts =>
      rw [operands?, Option.bind_eq_bind, Option.bind_eq_some_iff]
      simp only [Option.bind_eq_bind, Option.bind_eq_some_iff, Prod.exists, ih, List.zip_cons_cons,
        List.forall_mem_cons, List.map_cons, List.length_cons, Nat.add_right_cancel_iff]
      constructor
      · rintro ⟨spares, own, rest, least, ⟨count, others, rfl, rfl⟩, result⟩
        obtain ⟨rfl, rfl⟩ := Prod.mk.inj (Option.some.inj result)
        refine ⟨count, ⟨by simp [own], others⟩, ?_, ?_⟩ <;>
          simp [own, operandAt, spareRank, mostSpares]
      · rintro ⟨count, ⟨own, others⟩, rfl, rfl⟩
        obtain ⟨spares, own⟩ := Option.isSome_iff_exists.mp own
        exact ⟨spares, own, _, _, ⟨count, others, rfl, rfl⟩,
          by simp [own, operandAt, spareRank, mostSpares]⟩

theorem sizes?_operandAt (xs : List (List Subscript × Tensor)) :
    sizes? (xs.map operandAt) = (entriesOf xs).foldlM addSize? [] := by
  rw [sizes?, List.flatMap_map]
  rfl

structure Contracts (xs : List (List Subscript × Tensor)) (out : List Subscript) : Prop where
  nonempty : xs ≠ []
  terms : ∀ x ∈ xs, (sparesOf? x.1 x.2.rank).isSome
  diagonal : ∀ x ∈ xs, isDiagonal (operandAt x) = true
  sizes : Compatible (entriesOf xs)
  single : restCount out ≤ 1
  carried : 0 < mostSpares xs → restCount out ≠ 0
  distinct : (expand (mostSpares xs) out).Nodup
  known : ∀ d ∈ expand (mostSpares xs) out, ∃ n, (d, n) ∈ entriesOf xs

theorem Knows.isSome_lookup {sizes entries : List (Dim × Nat)} (h : Knows sizes entries) (d : Dim) :
    (sizes.lookup d).isSome ↔ ∃ n, (d, n) ∈ entries := by
  cases size : sizes.lookup d with
  | none =>
    have missing := (h d).2 size
    simp [missing]
  | some m =>
    have joined := ((h d).1 m size).1
    simp only [Option.isSome_some, true_iff]
    exact ⟨m, joined⟩

theorem outputDims?_eq_some {out : List Subscript} {spares : Nat} {sizes entries : List (Dim × Nat)}
    {dims : List Dim} (knows : Knows sizes entries) :
    outputDims? out spares sizes = some dims ↔ restCount out ≤ 1 ∧
      (0 < spares → restCount out ≠ 0) ∧ (expand spares out).Nodup ∧
      (∀ d ∈ expand spares out, ∃ n, (d, n) ∈ entries) ∧ dims = expand spares out := by
  rw [outputDims?]
  by_cases refused : 1 < restCount out ∨ (0 < spares ∧ restCount out = 0)
  · rw [if_pos (by simpa using refused)]
    simp only [reduceCtorEq, false_iff]
    rintro ⟨single, carried, _⟩
    rcases refused with many | ⟨some, none⟩
    · omega
    · exact carried some none
  · rw [if_neg (by simpa using refused)]
    have fine : (allDistinct (expand spares out) &&
        (expand spares out).all fun d => (sizes.lookup d).isSome) = true ↔
        (expand spares out).Nodup ∧ ∀ d ∈ expand spares out, ∃ n, (d, n) ∈ entries := by
      rw [Bool.and_eq_true, allDistinct_eq, List.all_eq_true]
      simp only [knows.isSome_lookup]
    constructor
    · intro h
      dsimp only at h
      split at h
      · next passed =>
        obtain ⟨distinct, known⟩ := fine.mp passed
        exact ⟨by omega, fun some none => refused (.inr ⟨some, none⟩), distinct, known,
          (Option.some.inj h).symm⟩
      · cases h
    · rintro ⟨_, _, distinct, known, rfl⟩
      exact if_pos (fine.mpr ⟨distinct, known⟩)

/-- The criterion: a contraction succeeds exactly if there is an array for each term and all fit. -/
theorem contract?_eq_some {c : Compiled} {ts : List Tensor} {r : Tensor} :
    contract? c ts = some r ↔ c.inputs.length = ts.length ∧ Contracts (c.inputs.zip ts) c.output ∧
      ∃ sizes, (entriesOf (c.inputs.zip ts)).foldlM addSize? [] = some sizes ∧
        r = evaluate ((c.inputs.zip ts).map operandAt) sizes
          (expand (mostSpares (c.inputs.zip ts)) c.output) := by
  rw [contract?]
  by_cases empty : ts = []
  · subst empty
    constructor
    · intro h
      cases h
    · rintro ⟨_, contracts, _⟩
      exact absurd List.zip_nil_right contracts.nonempty
  · have start : ts.isEmpty = false := by simpa using empty
    simp only [start, Bool.false_eq_true, if_false, Option.bind_eq_bind, Option.bind_eq_some_iff,
      Option.pure_def, Prod.exists, operands?_eq_some]
    constructor
    · rintro ⟨ops, most, ⟨count, terms, rfl, rfl⟩, h⟩
      have diagonal : ((c.inputs.zip ts).map operandAt).all isDiagonal = true := by
        by_contra refused
        rw [Bool.not_eq_true] at refused
        rw [refused] at h
        cases h
      simp only [diagonal, Bool.not_true, Bool.false_eq_true, if_false, Option.bind_eq_some_iff] at h
      obtain ⟨sizes, joined, dims, output, result⟩ := h
      rw [sizes?_operandAt] at joined
      obtain ⟨single, carried, distinct, known, rfl⟩ :=
        (outputDims?_eq_some (foldlM_knows joined)).mp output
      have compatible := foldlM_isSome_iff.mp (Option.isSome_iff_exists.mpr ⟨sizes, joined⟩)
      refine ⟨count, ⟨?_, terms, by simpa using diagonal, compatible, single, carried, distinct, known⟩,
        sizes, joined, (Option.some.inj result).symm⟩
      intro none
      have pairs := congrArg List.length none
      rw [List.length_zip, count, Nat.min_self] at pairs
      exact empty (List.length_eq_zero_iff.mp pairs)
    · rintro ⟨count, h, sizes, joined, rfl⟩
      refine ⟨_, _, ⟨count, h.terms, rfl, rfl⟩, ?_⟩
      rw [if_neg (by simpa using h.diagonal), Option.bind_eq_some_iff]
      refine ⟨sizes, ?_, Option.bind_eq_some_iff.mpr ⟨_, ?_, rfl⟩⟩
      · rw [sizes?_operandAt, joined]
      · exact (outputDims?_eq_some (foldlM_knows joined)).mpr
          ⟨h.single, h.carried, h.distinct, h.known, rfl⟩

theorem exists_contract?_iff {c : Compiled} {ts : List Tensor} (count : c.inputs.length = ts.length) :
    (∃ r, contract? c ts = some r) ↔ Contracts (c.inputs.zip ts) c.output := by
  constructor
  · rintro ⟨r, h⟩
    exact (contract?_eq_some.mp h).2.1
  · intro h
    obtain ⟨sizes, joined⟩ := Option.isSome_iff_exists.mp (foldlM_isSome_iff.mpr h.sizes)
    exact ⟨_, contract?_eq_some.mpr ⟨count, h, sizes, joined, rfl⟩⟩

theorem length_shape_contract? {c : Compiled} {ts : List Tensor} {r : Tensor}
    (h : contract? c ts = some r) :
    r.shape.length = (expand (mostSpares (c.inputs.zip ts)) c.output).length := by
  obtain ⟨_, _, sizes, _, rfl⟩ := contract?_eq_some.mp h
  exact List.length_map ..

end Contraction

end AxisLang
