import AxisLang.Handler.Task
import AxisLang.Proofs.LexerSteps
import AxisLang.Proofs.Lists
import AxisLang.Proofs.Scanners
import AxisLang.Proofs.TerminalOrder

/-! Actions on tokens.
An action is registered for a kind. If the kind has no keywords, the action is applied to every token
found of that kind. If it has keywords, only the action registered last is applied to the tokens that
keep their kind, so that an action registered later, for whatever kind, stops the ones before it. -/
namespace AxisLang

namespace Lexer

open Scanner (IsKeyword)

variable {c : LexerConf} {lx : Lexer} {sc : Scanner} {st : LexState} {place : Option ParserPlace}
  {r : Terminal} {act : TokenAction} {kind : String} {n : Nat} {s : List Char}

structure Dictionary (actions : List (String × TokenAction)) : Prop where
  distinct : (actions.map (·.1)).Nodup
  keeps : ∀ e ∈ actions, ∀ t v, e.2 t = .ok v → ∃ u, v = .token u ∧ u.kind = t.kind

structure Finds (sc : Scanner) (kind : String) (n : Nat) (s : List Char) : Prop where
  found : sc.scan s = some (kind, n)
  stays : (sc.keyword? kind (s.take n)).getD kind = kind

/-- The last action is that of the kind. -/
def RegisteredLast (c : LexerConf) (kind : String) : Prop :=
  c.callbacks.getLast?.map (·.1) = some kind

/-- The action of a terminal is applied to each of its tokens that is no keyword, whatever other actions
are registered and in whatever order. -/
def ActsAlone (c : LexerConf) (r : Terminal) : Prop :=
  ∀ actions, Dictionary actions → ∀ act, (r.name, act) ∈ actions →
    ∀ lx sc, define { c with callbacks := actions } = .ok lx → lx.scanner = .ok sc →
      ∀ place st n, lx.Asked sc st → Finds sc r.name n st.rest →
        lx.next place st = lx.afterSettling place st r.name n (act (lx.foundToken st r.name n))

theorem retype_eq_self {t : Token} (h : (sc.keyword? t.kind t.text.chars).getD t.kind = t.kind) :
    retype sc t = t := by
  unfold retype
  cases keyword : sc.keyword? t.kind t.text.chars with
  | none => rfl
  | some k =>
    obtain rfl : k = t.kind := by simpa [keyword] using h
    rfl

theorem Finds.retype_foundToken (h : Finds sc kind n st.rest) :
    retype sc (lx.foundToken st kind n) = lx.foundToken st kind n := by
  apply retype_eq_self
  rw [foundToken_kind, foundToken_text, h.stays]

theorem retype_of_no_keywords {t : Token} (none : (sc.keywords.lookup t.kind).isSome ≠ true) :
    retype sc t = t := by
  apply retype_eq_self
  simp [Scanner.keyword?, Option.not_isSome_iff_eq_none.mp none]

theorem settle_of_applied {t : Token} (registered : lx.callbacks.lookup t.kind = some act)
    (h : (sc.keywords.lookup t.kind).isSome ≠ true ∨
      lx.callbacks.getLast?.map (·.1) = some (retype sc t).kind) :
    lx.settle sc t = act (retype sc t) := by
  unfold settle
  rw [registered]
  by_cases keywords : (sc.keywords.lookup t.kind).isSome = true
  · have last := h.resolve_left fun none => none keywords
    simp [keywords, last]
  · simp [keywords, retype_of_no_keywords keywords]

theorem settle_of_skipped {t : Token} (registered : lx.callbacks.lookup t.kind = some act)
    (keywords : (sc.keywords.lookup t.kind).isSome = true)
    (other : lx.callbacks.getLast?.map (·.1) ≠ some (retype sc t).kind) :
    lx.settle sc t = .ok (.token (retype sc t)) := by
  unfold settle
  have differ := beq_false_of_ne (Ne.symm other)
  rw [registered]
  simp only [keywords, if_true, differ, Bool.false_eq_true, if_false]

theorem Made.keywords_iff (made : Made c lx) (scanner : lx.scanner = .ok sc) (mem : r ∈ c.terminals) :
    (sc.keywords.lookup r.name).isSome = true ↔
      ∃ l ∈ c.terminals, IsKeyword (.ofBits c.flags) r l := by
  have perm := (Terminal.sorted_spec made.terminals).1
  rw [(Scanner.build_spec (made.build scanner)).2]
  constructor
  · rintro ⟨t, among, name, l, literal, keyword⟩
    obtain rfl := List.inj_on_of_nodup_map made.distinct (perm.mem_iff.mp among) mem name
    exact ⟨l, perm.mem_iff.mp literal, keyword⟩
  · rintro ⟨l, literal, keyword⟩
    exact ⟨r, perm.mem_iff.mpr mem, rfl, l, perm.mem_iff.mpr literal, keyword⟩

section Requests

variable (made : Made c lx) (scanner : lx.scanner = .ok sc) (mem : r ∈ c.terminals)
  (dictionary : Dictionary c.callbacks) (registered : (r.name, act) ∈ c.callbacks)
  (asked : lx.Asked sc st) (found : sc.scan st.rest = some (r.name, n))

include made scanner mem dictionary registered asked found

theorem next_of_applied (place : Option ParserPlace)
    (h : (∀ l ∈ c.terminals, ¬ IsKeyword (.ofBits c.flags) r l) ∨
      RegisteredLast c (retype sc (lx.foundToken st r.name n)).kind) :
    lx.next place st =
      lx.afterSettling place st r.name n (act (retype sc (lx.foundToken st r.name n))) := by
  have kind := foundToken_kind lx st r.name n
  rw [asked.next_found found, settle_of_applied]
  · rw [kind, made.callbacks]
    exact lookup_of_mem dictionary.distinct registered
  · rw [kind, made.callbacks]
    refine h.imp ?_ id
    intro none keywords
    obtain ⟨l, literal, keyword⟩ := (made.keywords_iff scanner mem).mp keywords
    exact none l literal keyword

theorem next_of_skipped (place : Option ParserPlace)
    (keyword : ∃ l ∈ c.terminals, IsKeyword (.ofBits c.flags) r l)
    (other : ¬ RegisteredLast c (retype sc (lx.foundToken st r.name n)).kind) :
    lx.next place st =
      lx.afterSettling place st r.name n (.ok (.token (retype sc (lx.foundToken st r.name n)))) := by
  have kind := foundToken_kind lx st r.name n
  have lookup := lookup_of_mem dictionary.distinct registered
  rw [← made.callbacks, ← kind] at lookup
  rw [asked.next_found found, settle_of_skipped lookup]
  · rw [kind]
    exact (made.keywords_iff scanner mem).mpr keyword
  · rw [made.callbacks]
    exact other

end Requests

theorem define_actions (h : define c = .ok lx) (actions : List (String × TokenAction)) :
    define { c with callbacks := actions } = .ok { lx with callbacks := actions } := by
  unfold define at h ⊢
  split at h
  · rename_i distinct
    rw [if_pos distinct]
    unfold build at h ⊢
    by_cases asked : c.validate = true
    · rw [if_pos asked] at h ⊢
      obtain ⟨_, valid, h⟩ := bind_eq_ok_iff.mp h
      obtain ⟨ts, sorted, h⟩ := bind_eq_ok_iff.mp h
      obtain rfl := Except.ok.inj h
      exact bind_eq_ok_iff.mpr ⟨_, valid, bind_eq_ok_iff.mpr ⟨ts, sorted, rfl⟩⟩
    · rw [if_neg asked] at h ⊢
      obtain ⟨ts, sorted, h⟩ := bind_eq_ok_iff.mp h
      obtain rfl := Except.ok.inj h
      exact bind_eq_ok_iff.mpr ⟨ts, sorted, rfl⟩
  · simp at h

theorem afterSettling_token_ne {e : Error} (t : Token) (real : e ≠ .fault .endless "") :
    lx.afterSettling place st kind n (.ok (.token t)) ≠
      lx.afterSettling place st kind n (.error e) := by
  unfold afterSettling
  by_cases ignored : lx.ignore.contains kind = true
  · simp only [ignored, if_true]
    intro same
    split at same
    · rename_i nonempty
      -- the request that passes over the token ends behind it, the one that fails before it
      have ahead := lx.pos_le_next place (lx.behind st kind n)
      rw [same, behind, LexState.advance, Cursor.feed_pos] at ahead
      dsimp only at ahead
      omega
    · have endless := Scan.failed.inj (congrArg Prod.fst same)
      exact real endless.symm
  · simp only [ignored, Bool.false_eq_true, if_false]
    intro same
    exact Scan.noConfusion (congrArg Prod.fst same)

def failBefore (a b : String) : List (String × TokenAction) :=
  [(a, TokenTask.fail.action), (b, TokenTask.keep.action)]

theorem dictionary_failBefore {a b : String} (differ : a ≠ b) : Dictionary (failBefore a b) where
  distinct := by simp [failBefore, differ]
  keeps := by
    intro e mem t v eq
    rcases List.mem_pair.mp mem with rfl | rfl
    · cases eq
    · obtain rfl := Except.ok.inj eq
      exact ⟨t, rfl, rfl⟩

/-- The failing action of a terminal with keywords goes unnoticed once an action is registered behind
it. -/
theorem not_actsAlone (defined : define c = .ok lx) (scanner : lx.scanner = .ok sc)
    (mem : r ∈ c.terminals) {l : Terminal} (literal : l ∈ c.terminals)
    (keyword : IsKeyword (.ofBits c.flags) r l) (nonempty : s ≠ []) (finds : Finds sc r.name n s) :
    ¬ ActsAlone c r := by
  intro alone
  have differ : r.name ≠ l.name := by
    intro same
    obtain rfl := List.inj_on_of_nodup_map (made_of_define defined).distinct mem literal same
    cases keyword.regular.symm.trans keyword.literal
  obtain ⟨lx', defined', scanner'⟩ :
      ∃ lx', define { c with callbacks := failBefore r.name l.name } = .ok lx' ∧ lx'.scanner = .ok sc :=
    ⟨_, define_actions defined _, scanner⟩
  have registered : (r.name, TokenTask.fail.action) ∈ failBefore r.name l.name := by simp [failBefore]
  have dictionary := dictionary_failBefore differ
  obtain ⟨st, rfl, asked⟩ : ∃ st : LexState, st.rest = s ∧ lx'.Asked sc st :=
    ⟨{ text := ⟨s, lx'.bytes⟩ }, rfl, List.length_pos_iff.mpr nonempty, scanner', rfl⟩
  have applied := alone _ dictionary _ registered lx' sc defined' scanner' none st n asked finds
  have other : ¬ RegisteredLast { c with callbacks := failBefore r.name l.name }
      (retype sc (lx'.foundToken st r.name n)).kind := by
    rw [finds.retype_foundToken, foundToken_kind]
    simpa [RegisteredLast, failBefore] using differ.symm
  have skipped := next_of_skipped (made_of_define defined') scanner' mem dictionary registered asked
    finds.found none ⟨l, literal, keyword⟩ other
  refine afterSettling_token_ne _ ?_ (skipped.symm.trans applied)
  simp

/-- For every dictionary of actions: the action of a terminal is applied to a token that the terminal
found if the terminal has no keywords, and otherwise if the action registered last is that of the kind
which the token has in the end. So the action acts alone just if the terminal has no keywords, or finds
nothing but keywords. -/
theorem action_applied_iff_last (defined : define c = .ok lx) (scanner : lx.scanner = .ok sc)
    (mem : r ∈ c.terminals) :
    (Dictionary c.callbacks → ∀ act, (r.name, act) ∈ c.callbacks → ∀ place st n, lx.Asked sc st →
        sc.scan st.rest = some (r.name, n) →
        ((∀ l ∈ c.terminals, ¬ IsKeyword (.ofBits c.flags) r l) ∨
            RegisteredLast c (retype sc (lx.foundToken st r.name n)).kind →
          lx.next place st =
            lx.afterSettling place st r.name n (act (retype sc (lx.foundToken st r.name n)))) ∧
        ((∃ l ∈ c.terminals, IsKeyword (.ofBits c.flags) r l) →
            ¬ RegisteredLast c (retype sc (lx.foundToken st r.name n)).kind →
          lx.next place st =
            lx.afterSettling place st r.name n
              (.ok (.token (retype sc (lx.foundToken st r.name n)))))) ∧
      (ActsAlone c r ↔
        (∀ l ∈ c.terminals, ¬ IsKeyword (.ofBits c.flags) r l) ∨
          ∀ s n, s ≠ [] → ¬ Finds sc r.name n s) := by
  have made := made_of_define defined
  refine ⟨?_, ?_, ?_⟩
  · intro dictionary act registered place st n asked found
    exact ⟨next_of_applied made scanner mem dictionary registered asked found place,
      next_of_skipped made scanner mem dictionary registered asked found place⟩
  · intro alone
    by_cases keyword : ∃ l ∈ c.terminals, IsKeyword (.ofBits c.flags) r l
    · obtain ⟨l, literal, keyword⟩ := keyword
      refine .inr ?_
      intro s n nonempty finds
      exact not_actsAlone defined scanner mem literal keyword nonempty finds alone
    · refine .inl ?_
      intro l literal isKeyword
      exact keyword ⟨l, literal, isKeyword⟩
  · intro either actions dictionary act registered lx' sc' defined' scanner' place st n asked finds
    rw [define_actions defined actions] at defined'
    obtain rfl := Except.ok.inj defined'
    obtain rfl : sc = sc' := Except.ok.inj (scanner.symm.trans scanner')
    rcases either with none | nothing
    · have applied := next_of_applied (made_of_define (define_actions defined actions)) scanner' mem
        dictionary registered asked finds.found place (.inl none)
      rw [finds.retype_foundToken] at applied
      exact applied
    · have more : st.rest ≠ [] := by
        rw [← List.length_pos_iff, LexState.length_rest, LexState.remaining]
        have more := asked.more
        omega
      exact absurd finds (nothing st.rest n more)

def nameTerminal : Terminal :=
  ⟨"NAME", { kind := .regex, value := "[a-z]+" }, 0⟩

def ifTerminal : Terminal :=
  ⟨"IF", { kind := .literal, value := "if" }, 0⟩

def wordTerminals : List Terminal :=
  [nameTerminal, ifTerminal, ⟨"NUM", { kind := .regex, value := "[0-9]+" }, 0⟩]

def wordConf (actions : List (String × TokenAction)) : LexerConf :=
  { terminals := wordTerminals, callbacks := actions, known := wordTerminals }

def foundTexts (c : LexerConf) (text : String) : Option (List String) :=
  (define c).toOption.map fun lx => (lx.tokens (Text.ofString text)).1.map (·.shown)

theorem isKeyword_if : IsKeyword (.ofBits 0) nameTerminal ifTerminal where
  regular := rfl
  literal := rfl
  priority := rfl
  whole := by
    have whole : ((nameTerminal.pattern.compile (.ofBits 0)).toOption.any fun r =>
        r.matchLength? ifTerminal.pattern.value.toList == some ifTerminal.pattern.value.length) = true := by
      decide +kernel
    obtain ⟨r, compiled, length⟩ := exists_ok_of_any whole
    exact ⟨r, compiled, beq_iff_eq.mp length⟩

theorem action_applied_iff_last_names :
    ∃ lx sc, define (wordConf (failBefore "NAME" "NUM")) = .ok lx ∧ lx.scanner = .ok sc ∧
      Dictionary (failBefore "NAME" "NUM") ∧
      lx.next none { text := Text.ofString "ab" } =
        lx.afterSettling none { text := Text.ofString "ab" } "NAME" 2
          (.ok (.token (retype sc (lx.foundToken { text := Text.ofString "ab" } "NAME" 2)))) ∧
      ¬ ActsAlone (wordConf (failBefore "NAME" "NUM")) nameTerminal := by
  have built : ((define (wordConf (failBefore "NAME" "NUM"))).toOption.any fun lx =>
      !lx.bytes && lx.scanner.toOption.any fun sc =>
        sc.scan "ab".toList == some ("NAME", 2) && (sc.keyword? "NAME" "ab".toList).isNone) = true := by
    decide +kernel
  obtain ⟨lx, defined, scans⟩ := exists_ok_of_any built
  rw [Bool.and_eq_true, Bool.not_eq_true'] at scans
  obtain ⟨sc, scanner, finds⟩ := exists_ok_of_any scans.2
  rw [Bool.and_eq_true, beq_iff_eq, Option.isNone_iff_eq_none] at finds
  have mem : nameTerminal ∈ (wordConf (failBefore "NAME" "NUM")).terminals := List.mem_cons_self
  have keyword : ∃ l ∈ (wordConf (failBefore "NAME" "NUM")).terminals,
      IsKeyword (.ofBits 0) nameTerminal l :=
    ⟨ifTerminal, by decide, isKeyword_if⟩
  have dictionary : Dictionary (failBefore "NAME" "NUM") := dictionary_failBefore (by decide)
  have asked : lx.Asked sc { text := Text.ofString "ab" } := ⟨by decide, scanner, scans.1.symm⟩
  have found : Finds sc nameTerminal.name 2 (LexState.rest { text := Text.ofString "ab" }) :=
    ⟨finds.1, congrArg (Option.getD · "NAME") finds.2⟩
  obtain ⟨requests, alone⟩ := action_applied_iff_last defined scanner mem
  refine ⟨lx, sc, defined, scanner, dictionary, ?_, ?_⟩
  · refine (requests dictionary _ List.mem_cons_self none _ 2 asked found.found).2 keyword ?_
    rw [found.retype_foundToken, foundToken_kind]
    simp [RegisteredLast, wordConf, failBefore, nameTerminal]
  · rw [alone]
    rintro (none | nothing)
    · obtain ⟨l, literal, isKeyword⟩ := keyword
      exact none l literal isKeyword
    · exact nothing _ 2 (by decide) found

theorem action_stopped_by_later_action :
    foundTexts (wordConf [("NAME", TokenTask.upper.action)]) "ab" = some ["AB"] ∧
      foundTexts (wordConf [("NUM", TokenTask.keep.action), ("NAME", TokenTask.upper.action)]) "ab" =
        some ["AB"] ∧
      foundTexts (wordConf [("NAME", TokenTask.upper.action), ("NUM", TokenTask.keep.action)]) "ab" =
        some ["ab"] := by
  decide +kernel

end Lexer

end AxisLang
