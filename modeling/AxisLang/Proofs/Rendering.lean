import AxisLang.Proofs.Reading
import Mathlib.Data.List.Chain

/-! Writing expressions as texts and reading them back.
A rendering puts the names and marks of an expression in order, with axis names in any letter case and
with blanks and comments before, between and after them. Parsing gives the variables back from every
rendering. Names never stand side by side in an expression, so no two of them run together. -/
namespace AxisLang

variable {ν μ : Type}

structure Identifier where
  chars : List Char
  spells : TokenKind.name.Spells chars

def Identifier.text (n : Identifier) : String :=
  String.ofList n.chars

def Identifier.single (c : Char) (h : isNameStart c = true) : Identifier :=
  ⟨[c], c, [], rfl, h, by simp⟩

def Mark.chars : Mark → List Char
  | .dots => ['.', '.', '.']
  | .star => ['*']
  | .comma => [',']
  | .opening => ['[']
  | .closing => [']']
  | .arrow => ['-', '>']

theorem Mark.mark?_kind (m : Mark) : m.kind.mark? = some m.chars := by cases m <;> rfl

namespace Piece

def chars : Piece Identifier → List Char
  | .name n => n.chars
  | .mark m => m.chars

def isMark : Piece ν → Bool
  | .name _ => false
  | .mark _ => true

end Piece

/-- A text shows pieces in order, with blanks and comments before, between and after them. A comment
reaches to the end of its line, or to the end of the text. -/
inductive Written : List (Piece Identifier) → List Char → Prop
  | done : Written [] []
  | lastComment (body : List Char) (all : ∀ c ∈ body, isCommentPart c = true) : Written [] ('/' :: '/' :: body)
  | blank {ps t} (c : Char) (blank : isBlank c = true) (rest : Written ps t) : Written ps (c :: t)
  | comment {ps t} (body : List Char) (all : ∀ c ∈ body, isCommentPart c = true) (rest : Written ps t) :
      Written ps ('/' :: '/' :: body ++ '\n' :: t)
  | piece {ps t} (p : Piece Identifier) (rest : Written ps t) : Written (p :: ps) (p.chars ++ t)

/-- Of two pieces side by side one at least is a mark. -/
def Apart (ps : List (Piece ν)) : Prop :=
  ps.IsChain fun p q => p.isMark = true ∨ q.isMark = true

namespace Apart

theorem append {ps qs : List (Piece ν)} (front : Apart ps) (back : Apart qs)
    (start : ∀ q ∈ qs.head?, q.isMark = true) : Apart (ps ++ qs) :=
  List.IsChain.append front back fun _ _ q mem => .inr (start q mem)

theorem mark_cons {m : Mark} {ps : List (Piece ν)} (h : Apart ps) : Apart (.mark m :: ps) :=
  List.IsChain.cons h fun _ _ => .inl rfl

theorem append_mark {m : Mark} {ps : List (Piece ν)} (h : Apart ps) : Apart (ps ++ [.mark m]) :=
  h.append (List.isChain_singleton _) (by simp [Piece.isMark])

theorem following {m : Mark} {β : Type} {spell : β → List (Piece ν)} (h : ∀ x, Apart (spell x))
    (xs : List β) : Apart (following m spell xs) ∧
      ∀ q ∈ (AxisLang.following m spell xs).head?, q.isMark = true := by
  induction xs with
  | nil => exact ⟨.nil, by simp [AxisLang.following]⟩
  | cons x xs ih =>
    refine ⟨?_, by simp [AxisLang.following, Piece.isMark]⟩
    exact append (mark_cons (h x)) ih.1 ih.2

theorem factor (x : Factor ν) : Apart x.spell := by
  cases x <;> exact List.isChain_singleton _

theorem entry (x : Entry ν) : Apart x.spell := by
  cases x with
  | single x => exact factor x
  | product x y more =>
    have rest := following (m := .star) factor (y :: more)
    exact (factor x).append rest.1 rest.2

theorem argument (x : Argument ν) : Apart x.spell := by
  cases x with
  | bare n => exact List.isChain_singleton _
  | indexed n x more =>
    have name : Apart (n.toList.map Piece.name) := by
      cases n with
      | none => exact .nil
      | some n => exact List.isChain_singleton _
    have rest := following (m := .comma) entry more
    have body := mark_cons (m := .opening) ((entry x).append rest.1 rest.2)
    exact (name.append body (by simp [Piece.isMark])).append_mark

theorem phrase (e : Phrase ν) : Apart e.spell := by
  have rest := following (m := .comma) argument e.more
  have inputs := (argument e.first).append rest.1 rest.2
  have output : Apart (e.output.toList.flatMap Argument.spell) := by
    cases e.output with
    | none => exact .nil
    | some x => simpa using argument x
  exact inputs.append (mark_cons output) (by simp [Piece.isMark])

end Apart
theorem Mark.head_chars (m : Mark) : ∀ c ∈ m.chars.head?, isNamePart c = false := by
  cases m <;> simp [chars] <;> decide

theorem not_isNamePart_of_isBlank {c : Char} (h : isBlank c = true) : isNamePart c = false := by
  simp only [isBlank, List.contains_iff_mem, List.mem_cons, List.not_mem_nil, or_false] at h
  rcases h with rfl | rfl | rfl | rfl | rfl <;> decide

theorem Written.head {ps : List (Piece Identifier)} {t : List Char} (h : Written ps t)
    (start : ∀ p ∈ ps.head?, p.isMark = true) : ∀ c ∈ t.head?, isNamePart c = false := by
  cases h with
  | done => simp
  | lastComment body all => simp; decide
  | blank c blank rest => simpa using not_isNamePart_of_isBlank blank
  | comment body all rest => simp; decide
  | piece p rest =>
    cases p with
    | name n => exact absurd (start (.name n) rfl) (by simp [Piece.isMark])
    | mark m =>
      intro c mem
      exact m.head_chars c (by cases m <;> exact mem)

namespace Cut

theorem blank {ls : List (TokenKind × List Char)} {c : Char} {t : List Char}
    (blank : isBlank c = true) (h : Cut t ls) :
    ∃ ls', Cut (c :: t) ls' ∧ pieces ls' = pieces ls := by
  have front : front? (c :: t) = some (.space, (t.takeWhile isBlank).length + 1) := by
    rw [← length?_eq_some_iff, TokenKind.space_length?]
    simp [blank]
  by_cases more : t.head?.any isBlank = true
  · have next : front? t = some (.space, (t.takeWhile isBlank).length) := by
      rw [← length?_eq_some_iff, TokenKind.space_length?]
      exact ⟨more, rfl⟩
    obtain ⟨ls', rfl, rest⟩ := h.front_inv next
    exact ⟨_, of_front front rest, rfl⟩
  · have none : t.takeWhile isBlank = [] := by
      cases t with
      | nil => rfl
      | cons d t => simp_all
    rw [none] at front
    exact ⟨_, of_front front h, rfl⟩

theorem comment {ls : List (TokenKind × List Char)} {body t : List Char}
    (all : ∀ c ∈ body, isCommentPart c = true) (stop : ∀ c ∈ t.head?, isCommentPart c = false)
    (h : Cut t ls) : ∃ ls', Cut ('/' :: '/' :: body ++ t) ls' ∧ pieces ls' = pieces ls := by
  have own : (body ++ t).takeWhile isCommentPart = body := by
    rw [List.takeWhile_append_of_pos all]
    cases t with
    | nil => simp
    | cons c t => simp [stop c rfl]
  have front : front? ('/' :: '/' :: body ++ t) = some (.comment, body.length + 2) := by
    rw [← length?_eq_some_iff, TokenKind.comment_length?]
    exact ⟨body ++ t, rfl, by rw [own]⟩
  exact ⟨_, of_front front (by simpa using h), rfl⟩

theorem name {ls : List (TokenKind × List Char)} {t : List Char} (n : Identifier)
    (stop : ∀ c ∈ t.head?, isNamePart c = false) (h : Cut t ls) :
    Cut (n.chars ++ t) ((.name, n.chars) :: ls) := by
  obtain ⟨chars, c, rest, rfl, start, all⟩ := n
  have own : (rest ++ t).takeWhile isNamePart = rest := by
    rw [List.takeWhile_append_of_pos all]
    cases t with
    | nil => simp
    | cons c t => simp [stop c rfl]
  have front : front? (c :: rest ++ t) = some (.name, rest.length + 1) := by
    rw [← length?_eq_some_iff, TokenKind.name_length?]
    exact ⟨c, rest ++ t, rfl, start, by rw [own]⟩
  simpa using of_front front (by simpa using h)

theorem mark {ls : List (TokenKind × List Char)} {t : List Char} (m : Mark) (h : Cut t ls) :
    Cut (m.chars ++ t) ((m.kind, m.chars) :: ls) := by
  have front : front? (m.chars ++ t) = some (m.kind, m.chars.length) := by
    rw [← length?_eq_some_iff, TokenKind.mark_length? m.mark?_kind]
    exact ⟨List.prefix_append _ _, rfl⟩
  simpa using of_front front (by simpa using h)

end Cut

theorem Written.cut {ps : List (Piece Identifier)} {t : List Char} (h : Written ps t)
    (apart : Apart ps) :
    ∃ ls, Cut t ls ∧ pieces ls = ps.map (Piece.map Identifier.text) := by
  induction h with
  | done => exact ⟨[], .nil, rfl⟩
  | lastComment body all =>
    obtain ⟨ls, cut, same⟩ := Cut.comment all (t := []) (by simp) .nil
    exact ⟨ls, by simpa using cut, same⟩
  | blank c blank rest ih =>
    obtain ⟨ls, cut, same⟩ := ih apart
    obtain ⟨ls', cut', same'⟩ := cut.blank blank
    exact ⟨ls', cut', same'.trans same⟩
  | comment body all rest ih =>
    obtain ⟨ls, cut, same⟩ := ih apart
    obtain ⟨ls', cut', same'⟩ := cut.blank (c := '\n') rfl
    obtain ⟨ls'', cut'', same''⟩ := Cut.comment all (by simp; decide) cut'
    exact ⟨ls'', cut'', same''.trans (same'.trans same)⟩
  | @piece ps t p rest ih =>
    obtain ⟨ls, cut, same⟩ := ih (List.IsChain.tail apart)
    cases p with
    | name n =>
      have next : ∀ q ∈ ps.head?, q.isMark = true := fun q mem =>
        (List.IsChain.rel_head? apart mem).resolve_left (by simp [Piece.isMark])
      refine ⟨_, cut.name n (rest.head next), ?_⟩
      rw [List.map_cons, ← same]
      rfl
    | mark m =>
      refine ⟨_, cut.mark m, ?_⟩
      rw [List.map_cons, ← same]
      cases m <;> rfl

theorem following_map {β γ : Type} {f : ν → μ} {g : β → γ} {spell : β → List (Piece ν)}
    {spell' : γ → List (Piece μ)} (h : ∀ x, spell' (g x) = (spell x).map (Piece.map f)) (m : Mark)
    (xs : List β) :
    following m spell' (xs.map g) = (following m spell xs).map (Piece.map f) := by
  simp [following, List.flatMap_map, List.map_flatMap, h, Piece.map]

theorem Factor.spell_map (f : ν → μ) (x : Factor ν) :
    (x.map f).spell = x.spell.map (Piece.map f) := by
  cases x <;> rfl

theorem Entry.spell_map (f : ν → μ) (x : Entry ν) :
    (x.map f).spell = x.spell.map (Piece.map f) := by
  cases x with
  | single x => exact x.spell_map f
  | product x y more =>
    have rest := following_map (Factor.spell_map f) .star (y :: more)
    rw [List.map_cons] at rest
    rw [map, spell, spell, rest, x.spell_map, List.map_append]

theorem Argument.spell_map (f : ν → μ) (x : Argument ν) :
    (x.map f).spell = x.spell.map (Piece.map f) := by
  cases x with
  | bare n => rfl
  | indexed n x more =>
    have rest := following_map (Entry.spell_map f) .comma more
    cases n <;> simp [map, spell, rest, x.spell_map, Piece.map]

theorem Phrase.spell_map (f : ν → μ) (e : Phrase ν) :
    (e.map f).spell = e.spell.map (Piece.map f) := by
  have rest := following_map (Argument.spell_map f) .comma e.more
  obtain ⟨first, more, _ | out⟩ := e <;>
    simp [map, spell, rest, Argument.spell_map, Piece.map]

def Argument.folded : Argument String → Argument String
  | .bare n => .bare n
  | .indexed n x more => .indexed n (x.map lowered) (more.map (Entry.map lowered))

namespace Phrase

/-- The expression with its axis names in lower case; names of variables keep their case. -/
def folded (e : Phrase String) : Phrase String :=
  ⟨e.first.folded, e.more.map Argument.folded, e.output.map Argument.folded⟩

def texts (e : Phrase Identifier) : Phrase String :=
  e.map Identifier.text

/-- The text shows the expression in some layout and with some letter case of the axis names. -/
def Renders (e : Phrase Identifier) (s : String) : Prop :=
  ∃ e' : Phrase Identifier, e'.texts.folded = e.texts.folded ∧ Written e'.spell s.toList

end Phrase

theorem names_map (f : ν → μ) (xs : List (Factor ν)) :
    (xs.map (Factor.map f)).filterMap Factor.name? = (xs.filterMap Factor.name?).map f := by
  rw [List.filterMap_map, List.map_filterMap]
  congr 1
  funext x
  cases x <;> rfl

theorem Entry.axis_congr {x y : Entry String} (h : x.map lowered = y.map lowered) :
    x.axis = y.axis := by
  cases x with
  | single x => cases y with
    | product => cases h
    | single y =>
      have same : x.map lowered = y.map lowered := Entry.single.inj h
      cases x <;> cases y <;> simp_all [Factor.map, axis]
  | product x₁ x₂ xs => cases y with
    | single => cases h
    | product y₁ y₂ ys =>
      obtain ⟨first, second, more⟩ := Entry.product.inj h
      have same : (x₁ :: x₂ :: xs).map (Factor.map lowered) =
          (y₁ :: y₂ :: ys).map (Factor.map lowered) := by
        rw [List.map_cons, List.map_cons, first, second, more]
        rfl
      rw [axis, axis, ← names_map, ← names_map, same]

theorem Argument.toVariable_congr {x y : Argument String} (h : x.folded = y.folded) :
    x.toVariable = y.toVariable := by
  cases x with
  | bare n => cases y with
    | bare m => exact congrArg _ h
    | indexed => cases h
  | indexed n x xs => cases y with
    | bare => cases h
    | indexed m y ys =>
      obtain ⟨rfl, first, more⟩ := Argument.indexed.inj h
      have axes : (x :: xs).map Entry.axis = (y :: ys).map Entry.axis :=
        map_eq_map_of (fun _ _ => Entry.axis_congr) (congrArg₂ List.cons first more)
      rw [toVariable, toVariable, axes]

theorem Phrase.inputs_congr {e e' : Phrase String} (h : e.folded = e'.folded) :
    e.inputs = e'.inputs := by
  obtain ⟨first, more, _⟩ := Phrase.mk.inj h
  exact map_eq_map_of (fun _ _ => Argument.toVariable_congr) (congrArg₂ List.cons first more)

theorem Phrase.result_congr {e e' : Phrase String} (h : e.folded = e'.folded) :
    e.result = e'.result := by
  obtain ⟨_, _, output⟩ := Phrase.mk.inj h
  rw [result, result]
  cases out : e.output with
  | none => simp_all
  | some x => cases out' : e'.output with
    | none => simp_all
    | some y =>
      rw [out, out'] at output
      exact congrArg some (Argument.toVariable_congr (Option.some.inj output))

theorem Argument.isMixed_folded (x : Argument String) : x.folded.isMixed = x.isMixed := by
  cases x with
  | bare n => rfl
  | indexed n x more => exact (Argument.isMixed_map lowered (.indexed n x more))

theorem Phrase.isMixed_folded (e : Phrase String) : e.folded.isMixed = e.isMixed := by
  obtain ⟨first, more, _ | out⟩ := e <;>
    simp [folded, isMixed, Argument.isMixed_folded, List.any_map, Function.comp_def]

theorem Spec.withNames_eq (vs : List Variable) :
    withNames vs =
      vs.mapIdx fun i v => { v with name := some (v.name.getD ("input_" ++ toString i)) } := by
  rw [List.mapIdx_eq_zipIdx_map]
  rfl

namespace Expression

theorem reads_of_written {e : Phrase Identifier} {s : String} (h : Written e.spell s.toList) :
    Reads s e.texts := by
  obtain ⟨ls, cut, same⟩ := h.cut (Apart.phrase e)
  exact ⟨ls, cut, by rw [same, Phrase.texts, Phrase.spell_map]⟩

theorem parse_of_renders {e : Phrase Identifier} {s : String} (h : e.Renders s)
    (plain : e.isMixed = false) :
    Spec.parse s = Spec.ofVariables e.texts.inputs e.texts.result := by
  obtain ⟨e', same, written⟩ := h
  have mixed : e'.texts.isMixed = false := by
    rw [← Phrase.isMixed_folded, same, Phrase.isMixed_folded, Phrase.texts, Phrase.isMixed_map, plain]
  rw [parse_of_reads (reads_of_written written), mixed, Phrase.inputs_congr same,
    Phrase.result_congr same]
  rfl

def sample (i j k : Identifier) : Phrase Identifier :=
  ⟨.indexed (some (.single 'A' rfl)) (.single (.name i))
      [.single .dots, .product (.name j) (.name k) []],
    [.indexed none (.single (.name i)) []],
    some (.indexed none (.product (.name k) (.name j) []) [])⟩

/-- Parsing undoes rendering. From every text that shows an expression come its variables in order:
axis names in lower case, names of variables as they are, and for an unnamed input at position `i` among
the inputs the name `input_i`. -/
theorem parse_rendering {e : Phrase Identifier} {s : String} (renders : e.Renders s)
    (plain : e.isMixed = false) (few : e.texts.inputNames.eraseDups.length ≤ 52)
    (known : ∀ n ∈ e.texts.outputNames, n ∈ e.texts.inputNames) :
    Spec.parse s = .ok
      ⟨e.texts.inputs.mapIdx fun i v => { v with name := some (v.name.getD ("input_" ++ toString i)) },
        e.texts.result, .ofNames e.texts.inputNames.eraseDups⟩ := by
  rw [parse_of_renders renders plain, Spec.ofVariables_of_known few known, Spec.withNames_eq]
  rfl

theorem parse_rendering_sample :
    (sample (.single 'i' rfl) (.single 'j' rfl) (.single 'k' rfl)).Renders
        "A[I,...,j*K], // rows\n[I]\t->[K*j]//" ∧
      Spec.parse "A[I,...,j*K], // rows\n[I]\t->[K*j]//" = .ok
        ⟨[⟨some "A", [.named "i", .ellipsis, .product ["j", "k"]]⟩, ⟨some "input_1", [.named "i"]⟩],
          some ⟨none, [.product ["k", "j"]]⟩, [("i", "A"), ("j", "B"), ("k", "C")]⟩ := by
  have written : Written (sample (.single 'I' rfl) (.single 'j' rfl) (.single 'K' rfl)).spell
      "A[I,...,j*K], // rows\n[I]\t->[K*j]//".toList := by
    have text := Written.piece (.name (.single 'A' rfl)) <| .piece (.mark .opening) <|
      .piece (.name (.single 'I' rfl)) <| .piece (.mark .comma) <| .piece (.mark .dots) <|
      .piece (.mark .comma) <| .piece (.name (.single 'j' rfl)) <| .piece (.mark .star) <|
      .piece (.name (.single 'K' rfl)) <| .piece (.mark .closing) <| .piece (.mark .comma) <|
      .blank ' ' rfl <| .comment [' ', 'r', 'o', 'w', 's'] (by simp [isCommentPart]) <|
      .piece (.mark .opening) <| .piece (.name (.single 'I' rfl)) <| .piece (.mark .closing) <|
      .blank '\t' rfl <| .piece (.mark .arrow) <| .piece (.mark .opening) <|
      .piece (.name (.single 'K' rfl)) <| .piece (.mark .star) <|
      .piece (.name (.single 'j' rfl)) <| .piece (.mark .closing) <|
      .lastComment [] (by simp)
    exact text
  have renders : (sample (.single 'i' rfl) (.single 'j' rfl) (.single 'k' rfl)).Renders
      "A[I,...,j*K], // rows\n[I]\t->[K*j]//" := ⟨_, by decide +kernel, written⟩
  refine ⟨renders, ?_⟩
  rw [parse_rendering renders (by decide) (by decide +kernel) (by decide +kernel)]
  refine congrArg Except.ok ?_
  decide +kernel

def countedNames (first : Nat) : List Variable → List Variable
  | [] => []
  | v :: vs =>
    match v.name with
    | some _ => v :: countedNames first vs
    | none => { v with name := some ("input_" ++ toString first) } :: countedNames (first + 1) vs

def gapped : Phrase Identifier :=
  ⟨.indexed none (.single (.name (.single 'i' rfl))) [],
    [.indexed (some (.single 'a' rfl)) (.single (.name (.single 'j' rfl))) [],
      .indexed none (.single (.name (.single 'k' rfl))) []], none⟩

theorem parse_gapped_not_counted :
    gapped.Renders "[i], a[j], [k] ->" ∧ gapped.isMixed = false ∧
      gapped.texts.inputNames.eraseDups.length ≤ 52 ∧
      (∀ n ∈ gapped.texts.outputNames, n ∈ gapped.texts.inputNames) ∧
      ∀ first ∈ [0, 1], ∀ letters, Spec.parse "[i], a[j], [k] ->" ≠
        .ok ⟨countedNames first gapped.texts.inputs, gapped.texts.result, letters⟩ := by
  have written : Written gapped.spell "[i], a[j], [k] ->".toList := by
    have text := Written.piece (.mark .opening) <| .piece (.name (.single 'i' rfl)) <|
      .piece (.mark .closing) <| .piece (.mark .comma) <| .blank ' ' rfl <|
      .piece (.name (.single 'a' rfl)) <| .piece (.mark .opening) <|
      .piece (.name (.single 'j' rfl)) <| .piece (.mark .closing) <| .piece (.mark .comma) <|
      .blank ' ' rfl <| .piece (.mark .opening) <| .piece (.name (.single 'k' rfl)) <|
      .piece (.mark .closing) <| .blank ' ' rfl <| .piece (.mark .arrow) .done
    exact text
  have renders : gapped.Renders "[i], a[j], [k] ->" := ⟨_, rfl, written⟩
  refine ⟨renders, by decide, by decide +kernel, by decide +kernel, fun first mem letters eq => ?_⟩
  rw [parse_of_renders renders (by decide), Spec.ofVariables_of_known (by decide +kernel)
    (by decide +kernel)] at eq
  have inputs := (Spec.mk.inj (Except.ok.inj eq)).1
  have differ : ∀ first ∈ [0, 1], Spec.withNames gapped.texts.inputs ≠
      countedNames first gapped.texts.inputs := by decide +kernel
  exact differ first mem inputs

end Expression

end AxisLang
