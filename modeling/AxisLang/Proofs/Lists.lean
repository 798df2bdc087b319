import Mathlib.Data.List.Infix
import Mathlib.Data.List.Nodup

/-! Facts about lists: what is found in a table, what is left without repetition, and how often something
occurs. -/
namespace AxisLang

variable {α β γ : Type}

section Tables

variable {k : α} {ks : List α} {vs : List β}

theorem zip_concat {v : β} (next : vs[ks.length]? = some v) :
    (ks ++ [k]).zip vs = ks.zip vs ++ [(k, v)] := by
  induction ks generalizing vs with
  | nil =>
    cases vs with
    | nil => simp at next
    | cons u vs =>
      obtain rfl : u = v := by simpa using next
      rfl
  | cons l ks ih =>
    cases vs with
    | nil => simp at next
    | cons u vs => simp [ih (by simpa using next)]

theorem lookup_map [BEq γ] [LawfulBEq γ] {f : α → γ} {g : α → β} [Decidable (k ∈ ks)]
    (inj : ∀ l ∈ ks, f l = f k → l = k) :
    (ks.map fun l => (f l, g l)).lookup (f k) = if k ∈ ks then some (g k) else none := by
  split
  case isTrue mem =>
    obtain ⟨front, back, rfl, first⟩ := List.eq_append_cons_of_mem mem
    refine List.lookup_eq_some_iff.mpr ⟨front.map fun l => (f l, g l), _, by rw [List.map_append, List.map_cons], ?_⟩
    intro e early
    obtain ⟨l, among, rfl⟩ := List.mem_map.mp early
    have apart : f k ≠ f l := fun h => first (inj l (List.mem_append_left _ among) h.symm ▸ among)
    simpa using apart
  case isFalse absent =>
    rw [List.lookup_eq_none_iff]
    intro e mem
    obtain ⟨l, among, rfl⟩ := List.mem_map.mp mem
    have apart : f k ≠ f l := fun h => absent (inj l among h.symm ▸ among)
    simpa using apart

variable [BEq α] [LawfulBEq α]

theorem lookup_of_mem {entries : List (α × β)} {v : β} (distinct : (entries.map (·.1)).Nodup)
    (mem : (k, v) ∈ entries) : entries.lookup k = some v := by
  obtain ⟨front, back, rfl⟩ := List.append_of_mem mem
  refine List.lookup_eq_some_iff.mpr ⟨front, back, rfl, ?_⟩
  intro e early
  rw [List.map_append, List.nodup_append] at distinct
  have apart := distinct.2.2 e.1 (List.mem_map_of_mem early) k (by simp)
  simpa using Ne.symm apart

theorem isSome_lookup_zip (k : α) (enough : ks.length ≤ vs.length) :
    ((ks.zip vs).lookup k).isSome = true ↔ k ∈ ks := by
  conv_rhs => rw [← List.map_fst_zip enough, List.mem_map]
  simp only [List.lookup_isSome_iff, beq_iff_eq, @eq_comm _ k]

variable [BEq γ] [LawfulBEq γ] {f : α → γ}

theorem lookup_zip_map (inj : ∀ l ∈ ks, f l = f k → l = k) :
    ((ks.map f).zip vs).lookup (f k) = (ks.zip vs).lookup k := by
  induction ks generalizing vs with
  | nil => rfl
  | cons l ks ih =>
    rw [List.forall_mem_cons] at inj
    cases vs with
    | nil => rfl
    | cons v vs =>
      rw [List.map_cons, List.zip_cons_cons, List.zip_cons_cons, List.lookup_cons, List.lookup_cons, ih inj.2]
      by_cases same : k = l
      · simp [same]
      · have apart : f k ≠ f l := fun h => same (inj.1 h.symm).symm
        rw [beq_false_of_ne apart, beq_false_of_ne same]

end Tables

section Repetition

variable [BEq α] [LawfulBEq α] {xs ys : List α} {x : α}

theorem eraseDups_of_nodup (h : xs.Nodup) : xs.eraseDups = xs := by
  induction xs with
  | nil => rfl
  | cons x xs ih =>
    obtain ⟨fresh, rest⟩ := List.nodup_cons.mp h
    have all : xs.filter (fun y => !y == x) = xs := by
      rw [List.filter_eq_self]
      intro y mem
      simpa using fun same : y = x => fresh (same ▸ mem)
    rw [List.eraseDups_cons, all, ih rest]

theorem eraseDups_append_cons (mem : x ∈ xs) : (xs ++ x :: ys).eraseDups = (xs ++ ys).eraseDups := by
  rw [List.eraseDups_append, List.eraseDups_append, List.cons_removeAll]
  simp [mem]

theorem nodup_eraseDups (xs : List α) : xs.eraseDups.Nodup := by
  induction length : xs.length using Nat.strongRecOn generalizing xs with
  | ind n ih =>
    cases xs with
    | nil => simp
    | cons x xs =>
      have shorter : (xs.filter fun y => !y == x).length < n := by
        rw [← length]
        exact Nat.lt_succ_of_le (List.length_filter_le ..)
      rw [List.eraseDups_cons, List.nodup_cons]
      refine ⟨fun mem => ?_, ih _ shorter _ rfl⟩
      simpa using (List.mem_filter.mp (List.mem_eraseDups.mp mem)).2

variable [BEq γ] [LawfulBEq γ] {f : α → γ}

theorem filter_map_ne (inj : ∀ y ∈ xs, f y = f x → y = x) :
    (xs.map f).filter (fun z => !z == f x) = (xs.filter fun y => !y == x).map f := by
  rw [List.filter_map]
  congr 1
  apply List.filter_congr
  intro y mem
  have same : f y = f x ↔ y = x := ⟨inj y mem, congrArg f⟩
  rw [Function.comp_apply, Bool.eq_iff_iff]
  simp [same]

theorem eraseDups_map (inj : ∀ x ∈ xs, ∀ y ∈ xs, f x = f y → x = y) :
    (xs.map f).eraseDups = xs.eraseDups.map f := by
  induction length : xs.length using Nat.strongRecOn generalizing xs with
  | ind n ih =>
    cases xs with
    | nil => rfl
    | cons x xs =>
      have first : ∀ y ∈ xs, f y = f x → y = x := fun y mem =>
        inj y (List.mem_cons_of_mem _ mem) x (List.mem_cons_self ..)
      have shorter : (xs.filter fun y => !y == x).length < n := by
        rw [← length]
        exact Nat.lt_succ_of_le (List.length_filter_le ..)
      have rest := ih _ shorter (fun y hy z hz => inj y (by simp_all) z (by simp_all)) rfl
      rw [List.map_cons, List.eraseDups_cons, filter_map_ne first, rest, List.eraseDups_cons, List.map_cons]

end Repetition

section Counts

variable {p : α → Bool} {xs : List α} {x y : α}

theorem exists_two_of_countP (two : 1 < xs.countP p) :
    ∃ front x mid y back, xs = front ++ x :: (mid ++ y :: back) ∧ p x = true ∧ p y = true := by
  induction xs with
  | nil => cases two
  | cons x xs ih =>
    by_cases own : p x = true
    · rw [List.countP_cons_of_pos own] at two
      obtain ⟨y, mem, other⟩ := List.countP_pos_iff.mp (show 0 < xs.countP p by omega)
      obtain ⟨mid, back, rfl⟩ := List.append_of_mem mem
      exact ⟨[], x, mid, y, back, rfl, own, other⟩
    · rw [List.countP_cons_of_neg own] at two
      obtain ⟨front, x', mid, y, back, rfl, first, second⟩ := ih two
      exact ⟨x :: front, x', mid, y, back, rfl, first, second⟩

theorem eq_of_countP_le_one (one : xs.countP p ≤ 1) (hx : x ∈ xs) (hy : y ∈ xs) (px : p x = true)
    (py : p y = true) : x = y := by
  have first : x ∈ xs.filter p := List.mem_filter.mpr ⟨hx, px⟩
  have second : y ∈ xs.filter p := List.mem_filter.mpr ⟨hy, py⟩
  rw [List.countP_eq_length_filter] at one
  match found : xs.filter p with
  | [] => simp [found] at first
  | [a] =>
    rw [found, List.mem_singleton] at first second
    exact first.trans second.symm
  | a :: b :: rest => simp [found] at one

end Counts

section Parts

variable {xs ys : List α} {x y : α}

theorem filterMap_cons_toList (f : α → Option β) (x : α) (xs : List α) :
    (x :: xs).filterMap f = (f x).toList ++ xs.filterMap f := by
  cases own : f x <;> simp [own]

theorem take_append_cons_drop {n : Nat} (item : xs[n]? = some x) :
    xs = xs.take n ++ x :: xs.drop (n + 1) := by
  obtain ⟨inside, rfl⟩ := List.getElem?_eq_some_iff.mp item
  conv_lhs => rw [← List.take_append_drop n xs, List.drop_eq_getElem_cons inside]

theorem zipWith_take (f : α → β → γ) {n : Nat} (short : xs.length ≤ n) (ys : List β) :
    xs.zipWith f (ys.take n) = xs.zipWith f ys := by
  have length : (xs.zipWith f ys).length ≤ n := by
    rw [List.length_zipWith]
    omega
  conv_lhs => rw [← List.take_of_length_le short, ← List.take_zipWith]
  exact List.take_of_length_le length

theorem length_le_takeWhile {p : α → Bool} (front : xs <+: ys) (all : ∀ x ∈ xs, p x = true) :
    xs.length ≤ (ys.takeWhile p).length := by
  obtain ⟨rest, rfl⟩ := front
  rw [List.takeWhile_append_of_pos all, List.length_append]
  exact Nat.le_add_right _ _

theorem notMem_intercalate {us : List (List α)} (other : x ≠ y) (h : ∀ u ∈ us, x ∉ u) :
    x ∉ [y].intercalate us := by
  induction us with
  | nil => simp
  | cons u us ih =>
    rw [List.forall_mem_cons] at h
    cases us with
    | nil => simpa using h.1
    | cons v us =>
      rw [List.intercalate_cons_cons]
      simp [h.1, other, ih h.2]

theorem map_eq_map_of {f : α → β} {g : α → γ} (h : ∀ x y, f x = f y → g x = g y)
    (same : xs.map f = ys.map f) : xs.map g = ys.map g := by
  induction xs generalizing ys with
  | nil => rw [List.map_eq_nil_iff.mp same.symm]
  | cons x xs ih =>
    obtain ⟨y, ys', rfl, first, rest⟩ := List.map_eq_cons_iff.mp same.symm
    rw [List.map_cons, List.map_cons, ih rest.symm, h x y first.symm]

theorem exists_map_eq [BEq α] [LawfulBEq α] [Inhabited β] (distinct : xs.Nodup) {zs : List β}
    (h : zs.length = xs.length) : ∃ f : α → β, xs.map f = zs := by
  refine ⟨fun x => zs.getD (xs.idxOf x) default, ?_⟩
  refine List.ext_getElem (by simp [h]) fun p hp hz => ?_
  rw [List.getElem_map, distinct.idxOf_getElem, List.getD_eq_getElem?_getD, List.getElem?_eq_getElem hz,
    Option.getD_some]

theorem range_mul (n m : Nat) :
    List.range (n * m) = (List.range n).flatMap fun i => (List.range m).map (i * m + ·) := by
  induction n with
  | zero => simp
  | succ n ih =>
    rw [Nat.succ_mul, List.range_add, ih, List.range_succ, List.flatMap_append]
    simp

end Parts

end AxisLang
