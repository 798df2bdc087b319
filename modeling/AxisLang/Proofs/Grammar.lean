import AxisLang.Proofs.Phrase

/-! The grammar of expressions with its operators for options and repetitions, and the kinds of tokens
that it generates. What the start rule generates is what phrases are spelled with. -/
namespace AxisLang

inductive RuleName where
  | name
  | ellipsis
  | axisName
  | productAxis
  | axisNameOrProduct
  | axes
  | argument
  | inputs
  | output
  | einsum
  | start
deriving DecidableEq, Repr, Inhabited

inductive Ebnf where
  | token (k : TokenKind)
  | rule (n : RuleName)
  | seq (a b : Ebnf)
  | alt (a b : Ebnf)
  | opt (a : Ebnf)
  | plus (a : Ebnf)
  | star (a : Ebnf)
deriving DecidableEq, Repr, Inhabited

open Ebnf in
def grammar : RuleName → Ebnf
  | .name => token .name
  | .ellipsis => token .dots
  | .axisName => alt (rule .name) (rule .ellipsis)
  | .productAxis => seq (rule .axisName) (plus (seq (token .star) (rule .axisName)))
  | .axisNameOrProduct => alt (rule .productAxis) (rule .axisName)
  | .axes =>
    alt (seq (rule .axisNameOrProduct) (plus (seq (token .comma) (rule .axisNameOrProduct))))
      (rule .axisNameOrProduct)
  | .argument =>
    alt (seq (rule .name) (seq (token .opening) (seq (rule .axes) (token .closing))))
      (alt (rule .name) (seq (token .opening) (seq (rule .axes) (token .closing))))
  | .inputs => seq (rule .argument) (star (seq (token .comma) (rule .argument)))
  | .output => opt (rule .argument)
  | .einsum => seq (rule .inputs) (seq (token .arrow) (rule .output))
  | .start => rule .einsum

inductive Generates : Ebnf → List TokenKind → Prop
  | token {k} : Generates (.token k) [k]
  | rule {n w} (body : Generates (grammar n) w) : Generates (.rule n) w
  | seq {a b u w} (left : Generates a u) (right : Generates b w) : Generates (.seq a b) (u ++ w)
  | left {a b w} (h : Generates a w) : Generates (.alt a b) w
  | right {a b w} (h : Generates b w) : Generates (.alt a b) w
  | absent {a} : Generates (.opt a) []
  | present {a w} (h : Generates a w) : Generates (.opt a) w
  | once {a w} (h : Generates a w) : Generates (.plus a) w
  | again {a u w} (h : Generates a u) (more : Generates (.plus a) w) : Generates (.plus a) (u ++ w)
  | stop {a} : Generates (.star a) []
  | more {a u w} (h : Generates a u) (rest : Generates (.star a) w) : Generates (.star a) (u ++ w)

variable {ν β γ : Type} {a b : Ebnf} {spell : β → List (Piece ν)} {spell' : γ → List (Piece ν)}

/-- A right-hand side generates the kinds of just those pieces that spell one of the given
things. -/
def Spelled (a : Ebnf) (spell : β → List (Piece ν)) : Prop :=
  ∀ ps : List (Piece ν), Generates a (ps.map Piece.kind) ↔ ∃ x, spell x = ps

namespace Spelled

theorem of_same (h : Spelled a spell) (onto : ∀ x, ∃ y, spell' y = spell x)
    (back : ∀ y, ∃ x, spell x = spell' y) : Spelled a spell' := by
  intro ps
  rw [h ps]
  constructor
  · rintro ⟨x, rfl⟩
    exact onto x
  · rintro ⟨y, rfl⟩
    exact back y

theorem rule (n : RuleName) (h : Spelled (grammar n) spell) : Spelled (.rule n) spell := by
  intro ps
  rw [← h ps]
  constructor
  · rintro ⟨⟩
    assumption
  · exact .rule

theorem name : Spelled (.token .name) fun n : ν => [Piece.name n] := by
  intro ps
  constructor
  · intro h
    generalize same : ps.map Piece.kind = w at h
    cases h
    obtain ⟨p, rest, rfl, kind, empty⟩ := List.map_eq_cons_iff.mp same
    obtain rfl := List.map_eq_nil_iff.mp empty
    cases p with
    | name n => exact ⟨n, rfl⟩
    | mark m => cases m <;> exact absurd kind (by simp [Piece.kind, Mark.kind])
  · rintro ⟨n, rfl⟩
    exact .token

theorem mark (m : Mark) : Spelled (.token m.kind) fun _ : Unit => ([.mark m] : List (Piece ν)) := by
  intro ps
  constructor
  · intro h
    generalize same : ps.map Piece.kind = w at h
    cases h
    obtain ⟨p, rest, rfl, kind, empty⟩ := List.map_eq_cons_iff.mp same
    obtain rfl := List.map_eq_nil_iff.mp empty
    cases p with
    | name n => cases m <;> exact absurd kind (by simp [Piece.kind, Mark.kind])
    | mark m' =>
      have eq : m'.kind = m.kind := kind
      obtain rfl : m = m' := by cases m <;> cases m' <;> first | rfl | exact absurd eq (by decide)
      exact ⟨(), rfl⟩
  · rintro ⟨_, rfl⟩
    exact .token

theorem seq (h : Spelled a spell) (h' : Spelled b spell') :
    Spelled (.seq a b) fun x : β × γ => spell x.1 ++ spell' x.2 := by
  intro ps
  constructor
  · intro generated
    generalize same : ps.map Piece.kind = w at generated
    cases generated with
    | seq left right =>
      obtain ⟨p, q, rfl, rfl, rfl⟩ := List.map_eq_append_iff.mp same
      obtain ⟨x, rfl⟩ := (h p).mp left
      obtain ⟨y, rfl⟩ := (h' q).mp right
      exact ⟨(x, y), rfl⟩
  · rintro ⟨⟨x, y⟩, rfl⟩
    rw [List.map_append]
    exact .seq ((h _).mpr ⟨x, rfl⟩) ((h' _).mpr ⟨y, rfl⟩)

theorem alt (h : Spelled a spell) (h' : Spelled b spell') :
    Spelled (.alt a b) (Sum.elim spell spell') := by
  intro ps
  constructor
  · intro generated
    cases generated with
    | left left =>
      obtain ⟨x, rfl⟩ := (h ps).mp left
      exact ⟨.inl x, rfl⟩
    | right right =>
      obtain ⟨y, rfl⟩ := (h' ps).mp right
      exact ⟨.inr y, rfl⟩
  · rintro ⟨x | y, rfl⟩
    · exact .left ((h _).mpr ⟨x, rfl⟩)
    · exact .right ((h' _).mpr ⟨y, rfl⟩)

theorem opt (h : Spelled a spell) :
    Spelled (.opt a) fun x : Option β => x.toList.flatMap spell := by
  intro ps
  constructor
  · intro generated
    generalize same : ps.map Piece.kind = w at generated
    cases generated with
    | absent => exact ⟨none, (List.map_eq_nil_iff.mp same).symm⟩
    | present present =>
      obtain ⟨x, rfl⟩ := (h ps).mp (same ▸ present)
      exact ⟨some x, by simp⟩
  · rintro ⟨_ | x, rfl⟩
    · exact .absent
    · exact .present ((h _).mpr ⟨x, by simp⟩)

theorem star (h : Spelled a spell) :
    Spelled (.star a) fun xs : List β => xs.flatMap spell := by
  intro ps
  constructor
  · intro generated
    generalize same : ps.map Piece.kind = w at generated
    generalize repeated : Ebnf.star a = r at generated
    induction generated generalizing ps with
    | stop => exact ⟨[], (List.map_eq_nil_iff.mp same).symm⟩
    | more first _ _ ih =>
      obtain rfl := Ebnf.star.inj repeated
      obtain ⟨p, q, rfl, rfl, rfl⟩ := List.map_eq_append_iff.mp same
      obtain ⟨x, rfl⟩ := (h p).mp first
      obtain ⟨xs, rfl⟩ := ih q rfl rfl
      exact ⟨x :: xs, rfl⟩
    | _ => exact absurd repeated (by simp)
  · rintro ⟨xs, rfl⟩
    induction xs with
    | nil => exact .stop
    | cons x xs ih =>
      dsimp only at ih ⊢
      rw [List.flatMap_cons, List.map_append]
      exact .more ((h _).mpr ⟨x, rfl⟩) ih

theorem plus (h : Spelled a spell) :
    Spelled (.plus a) fun x : β × List β => (x.1 :: x.2).flatMap spell := by
  intro ps
  constructor
  · intro generated
    generalize same : ps.map Piece.kind = w at generated
    generalize repeated : Ebnf.plus a = r at generated
    induction generated generalizing ps with
    | once only =>
      obtain rfl := Ebnf.plus.inj repeated
      obtain ⟨x, rfl⟩ := (h ps).mp (same ▸ only)
      exact ⟨(x, []), by simp⟩
    | again first _ _ ih =>
      obtain rfl := Ebnf.plus.inj repeated
      obtain ⟨p, q, rfl, rfl, rfl⟩ := List.map_eq_append_iff.mp same
      obtain ⟨x, rfl⟩ := (h p).mp first
      obtain ⟨⟨y, ys⟩, rfl⟩ := ih q rfl rfl
      exact ⟨(x, y :: ys), rfl⟩
    | _ => exact absurd repeated (by simp)
  · rintro ⟨⟨x, xs⟩, rfl⟩
    induction xs generalizing x with
    | nil => exact .once ((h _).mpr ⟨x, by simp⟩)
    | cons y ys ih =>
      dsimp only at ih ⊢
      rw [List.flatMap_cons, List.map_append]
      exact .again ((h _).mpr ⟨x, rfl⟩) (ih y)

theorem factor : Spelled (.rule .axisName) (Factor.spell : Factor ν → List (Piece ν)) := by
  refine of_same (rule .axisName (alt (rule .name name) (rule .ellipsis (mark .dots)))) ?_ ?_
  · rintro (n | _)
    · exact ⟨.name n, rfl⟩
    · exact ⟨.dots, rfl⟩
  · rintro (n | _)
    · exact ⟨.inl n, rfl⟩
    · exact ⟨.inr (), rfl⟩

theorem entry : Spelled (.rule .axisNameOrProduct) (Entry.spell : Entry ν → List (Piece ν)) := by
  have product := rule .productAxis (seq factor (plus (seq (mark (ν := ν) .star) factor)))
  refine of_same (rule .axisNameOrProduct (alt product factor)) ?_ ?_
  · rintro (⟨x, ⟨_, y⟩, more⟩ | x)
    · exact ⟨.product x y (more.map Prod.snd), by simp [Entry.spell, following, List.flatMap_map]⟩
    · exact ⟨.single x, rfl⟩
  · rintro (x | ⟨x, y, more⟩)
    · exact ⟨.inr x, rfl⟩
    · refine ⟨.inl ⟨x, ((), y), more.map fun z => ((), z)⟩, ?_⟩
      simp [Entry.spell, following, List.flatMap_map]

theorem axes : Spelled (.rule .axes) fun x : Entry ν × List (Entry ν) =>
    x.1.spell ++ following .comma Entry.spell x.2 := by
  have several := seq entry (plus (seq (mark (ν := ν) .comma) entry))
  refine of_same (rule .axes (alt several entry)) ?_ ?_
  · rintro (⟨x, ⟨_, y⟩, more⟩ | x)
    · exact ⟨(x, y :: more.map Prod.snd), by simp [following, List.flatMap_map]⟩
    · exact ⟨(x, []), by simp [following]⟩
  · rintro ⟨x, _ | ⟨y, more⟩⟩
    · exact ⟨.inr x, by simp [following]⟩
    · refine ⟨.inl ⟨x, ((), y), more.map fun z => ((), z)⟩, ?_⟩
      simp [following, List.flatMap_map]

theorem argument : Spelled (.rule .argument) (Argument.spell : Argument ν → List (Piece ν)) := by
  have indexed := seq (mark (ν := ν) .opening) (seq axes (mark .closing))
  refine of_same (rule .argument (alt (seq (rule .name name) indexed)
    (alt (rule .name name) indexed))) ?_ ?_
  · rintro (⟨n, _, ⟨x, more⟩, _⟩ | n | ⟨_, ⟨x, more⟩, _⟩)
    · exact ⟨.indexed (some n) x more, by simp [Argument.spell]⟩
    · exact ⟨.bare n, rfl⟩
    · exact ⟨.indexed none x more, by simp [Argument.spell]⟩
  · rintro (n | ⟨_ | n, x, more⟩)
    · exact ⟨.inr (.inl n), rfl⟩
    · exact ⟨.inr (.inr ((), (x, more), ())), by simp [Argument.spell]⟩
    · exact ⟨.inl (n, (), (x, more), ()), by simp [Argument.spell]⟩

theorem phrase : Spelled (.rule .start) (Phrase.spell : Phrase ν → List (Piece ν)) := by
  have inputs := rule .inputs (seq argument (star (seq (mark (ν := ν) .comma) argument)))
  have whole := seq inputs (seq (mark .arrow) (rule .output (opt argument)))
  refine of_same (rule .start (rule .einsum whole)) ?_ ?_
  · rintro ⟨⟨x, more⟩, _, out⟩
    exact ⟨⟨x, more.map Prod.snd, out⟩, by simp [Phrase.spell, following, List.flatMap_map]⟩
  · rintro ⟨x, more, out⟩
    refine ⟨⟨(x, more.map fun z => ((), z)), (), out⟩, ?_⟩
    simp [Phrase.spell, following, List.flatMap_map]

end Spelled

end AxisLang
