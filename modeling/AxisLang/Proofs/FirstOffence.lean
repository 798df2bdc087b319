import AxisLang.Proofs.Acceptance
import AxisLang.Proofs.Viability

/-! Texts that are refused are refused at the first place that is wrong.
The lexemes before the reported place begin some sentence, so nothing was wrong so far. A token that
is reported cannot follow them in any sentence, at the end of the text they are not a sentence
themselves, and reported characters are matched by no terminal. This holds whether the machine refuses
a token or the lexer finds one that the state of the machine has no use for. -/
namespace AxisLang

def Ebnf.isDense : Ebnf → Bool
  | .token k => !k.isLayout
  | .rule _ => true
  | .seq a b => a.isDense && b.isDense
  | .alt a b => a.isDense && b.isDense
  | .opt a => a.isDense
  | .plus a => a.isDense
  | .star a => a.isDense

theorem grammar_isDense (n : RuleName) : (grammar n).isDense = true := by cases n <;> rfl

theorem Generates.not_isLayout {a : Ebnf} {w : List TokenKind} (h : Generates a w)
    (dense : a.isDense = true) : ∀ k ∈ w, k.isLayout = false := by
  induction h with
  | token => simpa [Ebnf.isDense] using dense
  | rule _ ih => exact ih (grammar_isDense _)
  | seq _ _ left right =>
    simp only [Ebnf.isDense, Bool.and_eq_true] at dense
    exact List.forall_mem_append.mpr ⟨left dense.1, right dense.2⟩
  | left _ ih => exact ih (Bool.and_eq_true_iff.mp dense).1
  | right _ ih => exact ih (Bool.and_eq_true_iff.mp dense).2
  | absent => simp
  | present _ ih => exact ih dense
  | once _ ih => exact ih dense
  | again _ _ first more => exact List.forall_mem_append.mpr ⟨first dense, more dense⟩
  | stop => simp
  | more _ _ first rest => exact List.forall_mem_append.mpr ⟨first dense, rest dense⟩

namespace Expression

open List (Forall₂)

/-- The kinds of lexemes that are not layout. -/
def readKinds (ls : List (TokenKind × List Char)) : List TokenKind :=
  (ls.map Prod.fst).filter fun k => !k.isLayout

/-- The kinds are those of the first tokens of a sentence. -/
def BeginsSentence (w : List TokenKind) : Prop :=
  ∃ z, Generates (.rule .start) (w ++ z)

theorem map_kind_tokensOf (c : Cursor) (ls : List (TokenKind × List Char)) :
    (tokensOf c ls).map Token.kind = (readKinds ls).map TokenKind.terminal := by
  induction ls generalizing c with
  | nil => rfl
  | cons l ls ih =>
    obtain ⟨k, u⟩ := l
    rw [tokensOf, readKinds, List.map_cons]
    cases layout : k.isLayout with
    | true => simpa [layout, readKinds] using ih (c.past k u)
    | false =>
      have own : (tokenOf c k u).kind = k.terminal := rfl
      simpa [layout, readKinds, own] using ih (c.past k u)

theorem generates_of_derives {ts : List Token} {v : Value}
    (h : Derives rules semantics ["start"] ts [v]) :
    ∃ ks, ts.map Token.kind = ks.map TokenKind.terminal ∧ Generates (.rule .start) ks := by
  obtain ⟨e, fits, _⟩ := derives_start_iff.mp h
  refine ⟨e.spell.map Piece.kind, ?_, (Spelled.phrase _).mpr ⟨e, rfl⟩⟩
  clear h
  generalize e.spell = ps at fits
  induction fits with
  | nil => rfl
  | @cons x p ts ps fit _ ih =>
    have same : x.kind = p.kind.terminal := by
      cases p with
      | name y => exact fit.2
      | mark m => exact fit
    rw [List.map_cons, List.map_cons, List.map_cons, ih, same]

theorem exists_fits {x : Token} {k : TokenKind} (kind : x.kind = k.terminal)
    (layout : k.isLayout = false) : ∃ p : Piece Token, x.Fits p ∧ p.kind = k := by
  cases k with
  | space => exact absurd layout (by decide)
  | comment => exact absurd layout (by decide)
  | name => exact ⟨.name x, ⟨rfl, kind⟩, rfl⟩
  | dots => exact ⟨.mark .dots, kind, rfl⟩
  | star => exact ⟨.mark .star, kind, rfl⟩
  | comma => exact ⟨.mark .comma, kind, rfl⟩
  | opening => exact ⟨.mark .opening, kind, rfl⟩
  | closing => exact ⟨.mark .closing, kind, rfl⟩
  | arrow => exact ⟨.mark .arrow, kind, rfl⟩

theorem run_of_generates {ts : List Token} {ks : List TokenKind}
    (same : ts.map Token.kind = ks.map TokenKind.terminal) (h : Generates (.rule .start) ks) :
    ∃ v, runConf.run (.tokens ts) atStart = .ok v := by
  have read := h.not_isLayout rfl
  have spelled : ∃ ps, Forall₂ Token.Fits ts ps ∧ ps.map Piece.kind = ks := by
    clear h
    induction ts generalizing ks with
    | nil => exact ⟨[], .nil, (List.map_eq_nil_iff.mp same.symm).symm⟩
    | cons x ts ih =>
      obtain ⟨k, ks, rfl, kind, rest⟩ := List.map_eq_cons_iff.mp same.symm
      obtain ⟨p, fit, rfl⟩ := exists_fits kind.symm (read k (by simp))
      obtain ⟨ps, fits, rfl⟩ := ih rest.symm fun k mem => read k (by simp [mem])
      exact ⟨p :: ps, .cons fit fits, rfl⟩
  obtain ⟨ps, fits, rfl⟩ := spelled
  obtain ⟨e, rfl⟩ := (Spelled.phrase ps).mp h
  refine ⟨e.tree, (run_tokens_iff fun x mem => ?_).mpr (derives_start_iff.mpr ⟨e, fits, rfl⟩)⟩
  have kind : x.kind ∈ (e.spell.map Piece.kind).map TokenKind.terminal :=
    same ▸ List.mem_map_of_mem mem
  obtain ⟨k, among, eq⟩ := List.mem_map.mp kind
  exact eq ▸ terminal_mem_kinds (read k among)

/-- The symbols with rules, each after those that have it in a rule that they open with. -/
def symbolOrder : List String := [
  "start", "einsum", "input_variables", "output_variable", "__input_variables_star_2", "variable",
  "axes", "__axes_plus_1", "axis_name_or_product", "product_axis", "__product_axis_plus_0",
  "axis_name", "name", "ellipsis"]

theorem outlook_isRooted : outlook.isRooted table frame symbolOrder = true := by decide +kernel

theorem beginsSentence_of_reached {s : Stack Value} {c : Cursor}
    {ls : List (TokenKind × List Char)}
    (h : Machine.Reached table frame semantics s (tokensOf c ls)) :
    BeginsSentence (readKinds ls) := by
  obtain ⟨z, v, derived⟩ := h.viable table_isSound outlook_isRooted semantics_isTotal
  obtain ⟨ks, same, sentence⟩ := generates_of_derives derived
  rw [List.map_append, map_kind_tokensOf] at same
  obtain ⟨front, rest, rfl, first, _⟩ := List.map_eq_append_iff.mp same.symm
  obtain rfl : front = readKinds ls :=
    List.map_injective_iff.mpr (fun _ _ => TokenKind.terminal_inj) first
  exact ⟨rest, sentence⟩

theorem ready_terminals : (terminals.all fun d => TokenKind.all.any fun k =>
    (Scanner.ready (.ofBits 0) d).toOption == some k.matcher) = true := by decide +kernel

theorem unmatched_of_front {s : List Char} (h : front? s = none) :
    ∀ d ∈ terminals, ∃ m, Scanner.ready (.ofBits 0) d = .ok m ∧ m.regex.matchLength? s = none := by
  intro d mem
  obtain ⟨k, _, found⟩ := List.any_eq_true.mp (List.all_eq_true.mp ready_terminals d mem)
  cases ready : Scanner.ready (.ofBits 0) d with
  | error e => simp [ready, Except.toOption] at found
  | ok m =>
    obtain rfl : m = k.matcher := by simpa [ready, Except.toOption] using found
    refine ⟨k.matcher, rfl, ?_⟩
    rw [TokenKind.matcher, TokenKind.matchLength?_regex, Option.eq_none_iff_forall_ne_some]
    intro n length
    rw [length?_eq_some_iff, h] at length
    exact absurd length (by simp)

inductive Offends (front rest : List Char) (ls : List (TokenKind × List Char)) : Error → Prop
  | token {k : TokenKind} {u : List Char} {report : TokenReport} (longest : Longest k u rest)
      (read : k.isLayout = false)
      (offender : report.offender = .token (tokenOf (Cursor.pastAll {} ls) k u))
      (start : report.offender.start = some (front.length : Int))
      (misplaced : ¬ BeginsSentence (readKinds ls ++ [k])) :
      Offends front rest ls (.unexpectedToken report)
  | unfinished {t : Token} {report : TokenReport} (finished : rest = [])
      (offender : report.offender = .token t) (kind : t.kind = Token.endKind)
      (partly : ¬ Generates (.rule .start) (readKinds ls)) :
      Offends front rest ls (.unexpectedToken report)
  | chars {report : CharReport} (more : rest ≠ []) (pos : report.pos = (front.length : Int))
      (unmatched : ∀ d ∈ terminals,
        ∃ m, Scanner.ready (.ofBits 0) d = .ok m ∧ m.regex.matchLength? rest = none) :
      Offends front rest ls (.unexpectedChars report)

section Halted

variable {ls : List (TokenKind × List Char)} {p : Progress Value}

/-- A token that the machine refuses after the lexemes read so far follows them in no sentence: the
machine would accept that sentence. -/
theorem not_beginsSentence (fed : runConf.feedAll (tokensOf {} ls) atStart = .ok p) {x : Token}
    {k : TokenKind} (kind : x.kind = k.terminal) {e : Error} {s : Stack Value}
    (refused : Machine.feed table semantics 0 false x p.stack = .failed e s) :
    ¬ BeginsSentence (readKinds ls ++ [k]) := by
  rintro ⟨z, sentence⟩
  let after : List Token := z.map fun k => { kind := k.terminal, text := ⟨[], false⟩ }
  have same : (tokensOf {} ls ++ x :: after).map Token.kind =
      (readKinds ls ++ [k] ++ z).map TokenKind.terminal := by
    simp only [List.map_append, map_kind_tokensOf, List.map_cons, kind, List.map_map, after,
      Function.comp_def, List.append_assoc, List.singleton_append]
  obtain ⟨v, accepted⟩ := run_of_generates same sentence
  rw [RunConf.run_append rfl fed, RunConf.run_cons rfl] at accepted
  have stopped : Machine.feed runConf.table runConf.semantics runConf.final false x p.stack =
    .failed e s := refused
  rw [stopped] at accepted
  exact absurd accepted (by simp)

theorem not_generates (fed : runConf.feedAll (tokensOf {} ls) atStart = .ok p) {failure : RunFailure}
    (refused : runConf.conclude p = .error failure) :
    ¬ Generates (.rule .start) (readKinds ls) := by
  intro sentence
  obtain ⟨v, accepted⟩ := run_of_generates (map_kind_tokensOf {} ls) sentence
  have run := RunConf.run_append rfl fed []
  rw [List.append_nil, RunConf.run_nil, refused, accepted] at run
  exact absurd run (by simp)

theorem report_of_conclude {w : List Token}
    (reached : Machine.Reached table frame semantics p.stack w) {failure : RunFailure}
    (refused : runConf.conclude p = .error failure) :
    ∃ t report, t.kind = Token.endKind ∧ report.offender = .token t ∧
      failure.error = .unexpectedToken report := by
  have outcome : Machine.Outcome table frame semantics true (RunConf.endToken p.last) w
      (Machine.feed runConf.table runConf.semantics runConf.final true (RunConf.endToken p.last)
        p.stack) :=
    reached.feed table_isSound true _ (by rw [RunConf.endToken_kind]; exact endKind_notMem_symbols)
      fun _ => RunConf.endToken_kind _
  rw [RunConf.conclude_eq rfl] at refused
  cases fed : Machine.feed runConf.table runConf.semantics runConf.final true
      (RunConf.endToken p.last) p.stack with
  | shifted s => rw [fed] at outcome; exact absurd outcome.1 (by simp)
  | accepted v s => rw [fed] at refused; exact absurd refused (by simp)
  | failed e s =>
    rw [fed] at outcome refused
    obtain rfl : ⟨e, s.states⟩ = failure := Except.error.inj refused
    obtain ⟨report, offender, rfl⟩ := report_of_explained outcome
    exact ⟨_, report, RunConf.endToken_kind _, offender, rfl⟩

end Halted

theorem tree_traced (s : String) : ∃ ls st p result, CutTo s.toList ls st.rest ∧
    st.cursor = Cursor.pastAll {} ls ∧ runConf.feedAll (tokensOf {} ls) atStart = .ok p ∧
    Machine.Reached table frame semantics p.stack (tokensOf {} ls) ∧
    RunConf.Halts frame runConf st p result ∧ tree s = result.mapError RunFailure.error := by
  obtain ⟨cl, suited, eq⟩ := tree_eq
  obtain ⟨ls, st, p, cut, cursor, fed, reached, halts⟩ :
      RunConf.Traced frame runConf cl ⟨Text.ofString s, {}, none⟩ atStart [] :=
    RunConf.run_traced table_isSound rfl rfl suited terminal_notMem_symbols rfl .start
  exact ⟨ls, st, p, _, cut, cursor, fed, reached, halts, eq s⟩

theorem exists_failure {result : Except RunFailure Value} {e : Error}
    (h : result.mapError RunFailure.error = .error e) :
    ∃ failure, result = .error failure ∧ failure.error = e := by
  cases result with
  | ok v => exact absurd h (by simp [Except.mapError])
  | error failure => exact ⟨failure, rfl, Except.error.inj h⟩

/-- A text that is refused is cut into lexemes up to the place that the report is about. The lexemes
before it begin a sentence, and there is something wrong at this place. -/
theorem tree_refused_at_offence {s : String} {e : Error} (failed : tree s = .error e) :
    ∃ front rest ls, s.toList = front ++ rest ∧ CutTo s.toList ls rest ∧
      BeginsSentence (readKinds ls) ∧ Offends front rest ls e := by
  obtain ⟨ls, st, p, result, cut, cursor, fed, reached, halts, eq⟩ := tree_traced s
  have place : st.cursor.pos = (ls.flatMap Prod.snd).length := by
    rw [cursor, Cursor.pastAll_pos]
    exact Nat.zero_add _
  refine ⟨ls.flatMap Prod.snd, st.rest, ls, cut.text, cut, beginsSentence_of_reached reached, ?_⟩
  obtain ⟨failure, refused, rfl⟩ := exists_failure (eq.symm.trans failed)
  cases halts with
  | finished empty =>
    obtain ⟨t, report, kind, offender, same⟩ := report_of_conclude reached refused
    rw [same]
    exact .unfinished empty offender kind (not_generates fed refused)
  | stray more front pos =>
    obtain rfl := Except.error.inj refused
    exact .chars more (by rw [pos, place]) (unmatched_of_front front)
  | @token k n _ _ _ front layout stopped explained =>
    obtain rfl := Except.error.inj refused
    obtain ⟨report, offender, same⟩ := report_of_explained explained
    have length := front?_length front
    have longest : Longest k (st.rest.take n) st.rest := by
      refine longest_iff.mpr ⟨List.take_prefix _ _, ?_⟩
      rw [front, List.length_take, Nat.min_eq_left length.2]
    rw [same]
    refine .token longest layout (cursor ▸ offender) ?_ (not_beginsSentence fed rfl stopped)
    rw [offender, ← place]
    rfl

theorem tree_refused_at_offence_bracket :
    ∃ e, tree "a]" = .error e ∧ ∃ front rest ls, "a]".toList = front ++ rest ∧
      CutTo "a]".toList ls rest ∧ BeginsSentence (readKinds ls) ∧ Offends front rest ls e := by
  have refused : (tree "a]").toOption.isNone = true := by decide +kernel
  cases failed : tree "a]" with
  | ok v => rw [failed] at refused; exact absurd refused (by simp [Except.toOption])
  | error e => exact ⟨e, rfl, tree_refused_at_offence failed⟩

end Expression

end AxisLang
