import Mathlib.Data.List.Forall2

/-! Computations that may fail, taken apart: a chain of them, and the same one for all items of a
list. -/
namespace AxisLang

open List (Forall₂)

theorem bind_eq_ok_iff {α β ε : Type} {x : Except ε α} {f : α → Except ε β} {b : β} :
    (x >>= f) = .ok b ↔ ∃ a, x = .ok a ∧ f a = .ok b := by
  cases x <;> simp [bind, Except.bind]

theorem map_bind_congr {α α' β γ δ ε : Type} {x : Except ε α} {y : Except ε α'}
    {f : α → Except ε β} {g : α' → Except ε β} {key : α → γ} {key' : α' → γ} {look : β → δ}
    (h : x.map key = y.map key') (next : ∀ a b, key a = key' b → (f a).map look = (g b).map look) :
    (x >>= f).map look = (y >>= g).map look := by
  cases x with
  | error e =>
    cases y with
    | error e' => exact congrArg Except.error (Except.error.inj h)
    | ok b => cases h
  | ok a =>
    cases y with
    | error e' => cases h
    | ok b => exact next a b (Except.ok.inj h)

theorem map_eq_ok_iff {α β ε : Type} {x : Except ε α} {f : α → β} {b : β} :
    x.map f = .ok b ↔ ∃ a, x = .ok a ∧ f a = b := by
  cases x <;> simp [Except.map]

theorem exists_ok_of_any {α ε : Type} {x : Except ε α} {p : α → Bool} (h : x.toOption.any p = true) :
    ∃ a, x = .ok a ∧ p a = true := by
  cases x with
  | ok a => exact ⟨a, rfl, h⟩
  | error e => cases h

theorem ok_of_toOption {α ε : Type} {x : Except ε α} {a : α} (h : x.toOption = some a) : x = .ok a := by
  cases x with
  | ok b => exact congrArg Except.ok (Option.some.inj h)
  | error e => cases h

theorem exists_error {α ε : Type} {x : Except ε α} (none : ∀ a, x ≠ .ok a) : ∃ e, x = .error e := by
  cases x with
  | error e => exact ⟨e, rfl⟩
  | ok a => exact absurd rfl (none a)

theorem mapM_ok {α β ε : Type} {f : α → Except ε β} {g : α → β} {xs : List α}
    (h : ∀ x ∈ xs, f x = .ok (g x)) : xs.mapM f = .ok (xs.map g) := by
  induction xs with
  | nil => rfl
  | cons x xs ih =>
    rw [List.forall_mem_cons] at h
    rw [List.mapM_cons, h.1, ih h.2]
    rfl

theorem exists_mapM_ok {α β ε : Type} {f : α → Except ε β} {xs : List α}
    (h : ∀ x ∈ xs, ∃ y, f x = .ok y) : ∃ ys, xs.mapM f = .ok ys := by
  induction xs with
  | nil => exact ⟨[], rfl⟩
  | cons x xs ih =>
    rw [List.forall_mem_cons] at h
    obtain ⟨y, first⟩ := h.1
    obtain ⟨ys, rest⟩ := ih h.2
    refine ⟨y :: ys, ?_⟩
    rw [List.mapM_cons, first, rest]
    rfl

theorem mapM_eq_ite {α β ε : Type} {f : α → Except ε β} {bad : α → Bool} {g : α → β} {e : ε}
    (h : ∀ x, f x = if bad x then .error e else .ok (g x)) (xs : List α) :
    xs.mapM f = if xs.any bad then .error e else .ok (xs.map g) := by
  induction xs with
  | nil => rfl
  | cons x xs ih =>
    rw [List.mapM_cons, h, ih, List.any_cons]
    by_cases first : bad x = true
    · simp [first, bind, Except.bind]
    · by_cases rest : xs.any bad = true <;>
        simp [first, rest, bind, Except.bind, pure, Except.pure]

theorem forIn_ok {α ε : Type} {g : α → Except ε Unit} {xs : List α}
    (h : (forIn xs PUnit.unit fun x _ => do g x; return ForInStep.yield PUnit.unit) = .ok PUnit.unit) :
    ∀ x ∈ xs, g x = .ok () := by
  induction xs with
  | nil => simp
  | cons x xs ih =>
    rw [List.forIn_cons, bind_assoc] at h
    obtain ⟨_, first, h⟩ := bind_eq_ok_iff.mp h
    exact List.forall_mem_cons.mpr ⟨first, ih h⟩

/-- A loop that puts something new before what it has so far, as long as nothing there stands in the
way. -/
theorem foldlM_ok {α β ε : Type} {f : List β → α → Except ε (List β)} {g : α → β}
    {R : β → α → Prop} {xs : List α} {done : List β}
    (distinct : xs.Pairwise fun a b => R (g a) b) (fresh : ∀ x ∈ xs, ∀ d ∈ done, R d x)
    (step : ∀ x ∈ xs, ∀ done, (∀ d ∈ done, R d x) → f done x = .ok (g x :: done)) :
    xs.foldlM f done = .ok ((xs.map g).reverse ++ done) := by
  induction xs generalizing done with
  | nil => rfl
  | cons x xs ih =>
    rw [List.pairwise_cons] at distinct
    rw [List.forall_mem_cons] at fresh step
    rw [List.foldlM_cons, step.1 done fresh.1]
    have later : xs.foldlM f (g x :: done) = .ok ((xs.map g).reverse ++ g x :: done) := ih distinct.2
      (fun y mem => List.forall_mem_cons.mpr ⟨distinct.1 y mem, fresh.2 y mem⟩) step.2
    simpa [bind, Except.bind] using later

theorem forall₂_of_mapM {α β ε : Type} {f : α → Except ε β} {xs : List α} {ys : List β}
    (h : xs.mapM f = .ok ys) : Forall₂ (fun x y => f x = .ok y) xs ys := by
  induction xs generalizing ys with
  | nil =>
    obtain rfl : [] = ys := Except.ok.inj h
    exact .nil
  | cons x xs ih =>
    rw [List.mapM_cons, bind_eq_ok_iff] at h
    obtain ⟨y, first, later⟩ := h
    obtain ⟨ys', rest, last⟩ := bind_eq_ok_iff.mp later
    obtain rfl : y :: ys' = ys := Except.ok.inj last
    exact .cons first (ih rest)

theorem exists_left_of_forall₂ {α β : Type} {R : α → β → Prop} {xs : List α} {ys : List β} {y : β}
    (h : Forall₂ R xs ys) (mem : y ∈ ys) : ∃ x ∈ xs, R x y := by
  induction h with
  | nil => simp at mem
  | cons first _ ih =>
    rcases List.mem_cons.mp mem with rfl | mem
    · exact ⟨_, by simp, first⟩
    · obtain ⟨x, among, related⟩ := ih mem
      exact ⟨x, List.mem_cons_of_mem _ among, related⟩

theorem exists_right_of_forall₂ {α β : Type} {R : α → β → Prop} {xs : List α} {ys : List β} {x : α}
    (h : Forall₂ R xs ys) (mem : x ∈ xs) : ∃ y ∈ ys, R x y :=
  exists_left_of_forall₂ h.flip mem

section Stateful

variable {σ ε α β : Type} {m m' : ExceptT ε (StateM σ) α} {f f' : α → ExceptT ε (StateM σ) β} {s s' : σ}

theorem run_bind_of_ok {a : α} (h : m.run s = (.ok a, s')) : (m >>= f).run s = (f a).run s' := by
  rw [ExceptT.run_bind]
  change StateT.bind _ _ _ = _
  unfold StateT.bind
  rw [show (m.run s : Id _) = pure (.ok a, s') from h]
  rfl

theorem run_bind_of_error {e : ε} (h : m.run s = (.error e, s')) : (m >>= f).run s = (.error e, s') := by
  rw [ExceptT.run_bind]
  change StateT.bind _ _ _ = _
  unfold StateT.bind
  rw [show (m.run s : Id _) = pure (.error e, s') from h]
  rfl

theorem run_bind_congr (first : m.run s = m'.run s)
    (next : ∀ a s', m.run s = (.ok a, s') → (f a).run s' = (f' a).run s') :
    (m >>= f).run s = (m' >>= f').run s := by
  rcases ran : m.run s with ⟨result, s'⟩
  cases result with
  | ok a => rw [run_bind_of_ok ran, run_bind_of_ok (first ▸ ran), next a s' ran]
  | error e => rw [run_bind_of_error ran, run_bind_of_error (first ▸ ran)]

end Stateful

end AxisLang
