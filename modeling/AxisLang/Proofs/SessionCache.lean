import AxisLang.Expression.Session
import AxisLang.Proofs.AcceptedShapes
import Mathlib.Data.Finset.Card
import Mathlib.Data.List.DropRight
import Mathlib.Algebra.Order.Field.Rat
import Mathlib.Tactic.NormNum.Basic

/-! The cache of compilations does not show in a session.
Every request is answered as on an empty cache, and the counters tell the requests since the cache
was last cleared. Keys are compared by value: a truth value, a whole number and a decimal are the same
key if they are the same number. Zero is the only number that is taken for false, so equal keys ask
for the same translation. -/
namespace AxisLang

inductive KeyValue where
  | nothing
  | number (q : ℚ)
  | text (s : String)
deriving DecidableEq

def KeyValue.truthy : KeyValue → Bool
  | .nothing => false
  | .number q => q ≠ 0
  | .text s => s ≠ ""

namespace Datum

variable {a b d : Datum} {m n : Int} {p q : Nat}

/-- The value of a datum that may be part of a key. -/
def keyValue? : Datum → Option KeyValue
  | null => some .nothing
  | bool b => some (.number (if b then 1 else 0))
  | int n => some (.number n)
  | decimal m p => some (.number (m / 10 ^ p))
  | str s => some (.text s)
  | list _ => none
  | record _ => none

theorem keyValue?_of_number? (h : d.number? = some (m, p)) :
    d.keyValue? = some (.number (m / 10 ^ p)) := by
  cases d with
  | bool b =>
    obtain ⟨rfl, rfl⟩ := Prod.mk.inj (Option.some.inj h)
    cases b <;> simp [keyValue?]
  | int n =>
    obtain ⟨rfl, rfl⟩ := Prod.mk.inj (Option.some.inj h)
    simp [keyValue?]
  | decimal m p =>
    obtain ⟨rfl, rfl⟩ := Prod.mk.inj (Option.some.inj h)
    rfl
  | _ => cases h

theorem keyValue?_ne_number (h : d.number? = none) (x : ℚ) : d.keyValue? ≠ some (.number x) := by
  cases d <;> simp_all [number?, keyValue?]

theorem same_number_iff :
    (m * Int.pow 10 q == n * Int.pow 10 p) = true ↔ (m / 10 ^ p : ℚ) = n / 10 ^ q := by
  have ten (k : Nat) : (10 ^ k : ℚ) ≠ 0 := pow_ne_zero k (by norm_num)
  rw [div_eq_div_iff (ten p) (ten q), beq_iff_eq]
  exact_mod_cast Iff.rfl

theorem sameKey_iff (key : a.isKey = true) : a.sameKey b = true ↔ a.keyValue? = b.keyValue? := by
  unfold sameKey
  cases left : a.number? with
  | none =>
    cases right : b.number? with
    | none => cases a <;> cases b <;> simp_all [number?, keyValue?, isKey]
    | some y =>
      have other := keyValue?_ne_number left
      simp [keyValue?_of_number? right, other]
  | some x =>
    cases right : b.number? with
    | none =>
      have other := keyValue?_ne_number right
      simp [keyValue?_of_number? left, Ne.symm (other _)]
    | some y =>
      rw [keyValue?_of_number? left, keyValue?_of_number? right]
      simp only [Option.some.injEq, KeyValue.number.injEq]
      exact same_number_iff

theorem isSome_keyValue? (d : Datum) : d.keyValue?.isSome = d.isKey := by
  cases d <;> rfl

theorem truthy_eq {v : KeyValue} (h : d.keyValue? = some v) : d.truthy = v.truthy := by
  cases d with
  | bool b =>
    obtain rfl := Option.some.inj h
    cases b <;> simp [truthy, KeyValue.truthy]
  | decimal m p =>
    obtain rfl := Option.some.inj h
    simp [truthy, KeyValue.truthy]
  | list _ => cases h
  | record _ => cases h
  | _ =>
    obtain rfl := Option.some.inj h
    simp [truthy, KeyValue.truthy]

end Datum

/-- A key up to the form in which its datum is written. -/
inductive KeyClass where
  | alone (s : String)
  | placed (s : String) (v : Option KeyValue)
  | named (s : String) (v : Option KeyValue)
deriving DecidableEq

namespace CacheKey

variable {k l : CacheKey}

def keyClass : CacheKey → KeyClass
  | alone s => .alone s
  | placed s v => .placed s v.keyValue?
  | named s v => .named s v.keyValue?

def isKey : CacheKey → Bool
  | alone _ => true
  | placed _ v => v.isKey
  | named _ v => v.isKey

theorem same_iff (key : k.isKey = true) : k.same l = true ↔ k.keyClass = l.keyClass := by
  cases k with
  | alone s => cases l <;> simp [same, keyClass]
  | placed s v => cases l <;> simp [same, keyClass, Datum.sameKey_iff (a := v) key]
  | named s v => cases l <;> simp [same, keyClass, Datum.sameKey_iff (a := v) key]

example : (placed "i ->" (.bool true)).keyClass = (placed "i ->" (.decimal 10 1)).keyClass := by
  norm_num [keyClass, Datum.keyValue?]

theorem text_eq (same : k.keyClass = l.keyClass) : k.text = l.text := by
  cases k <;> cases l <;> simp_all [keyClass, text]

theorem wantsParsed_eq (key : k.isKey = true) (same : k.keyClass = l.keyClass) :
    k.wantsParsed = l.wantsParsed := by
  have truthy {a b : Datum} (key : a.isKey = true) (same : a.keyValue? = b.keyValue?) :
      a.truthy = b.truthy := by
    rw [← Datum.isSome_keyValue?] at key
    obtain ⟨v, value⟩ := Option.isSome_iff_exists.mp key
    rw [Datum.truthy_eq value, Datum.truthy_eq (same ▸ value)]
  cases k <;> cases l <;> simp only [keyClass, reduceCtorEq, KeyClass.placed.injEq,
    KeyClass.named.injEq] at same
  · rfl
  · exact truthy key same.2
  · exact truthy key same.2

theorem translate_eq (key : k.isKey = true) (same : k.keyClass = l.keyClass) :
    k.translate = l.translate := by
  rw [translate, translate, text_eq same, wantsParsed_eq key same]

theorem isKey_of_ofCall? {s : String} {how : Call} (key : how.isKey = true)
    (h : ofCall? s how = some k) : k.isKey = true := by
  obtain ⟨positional, named⟩ := how
  simp only [Call.isKey, Bool.and_eq_true, List.all_eq_true] at key
  unfold ofCall? at h
  split at h
  · obtain rfl := Option.some.inj h
    rfl
  · next v placed _ =>
    obtain rfl := Option.some.inj h
    exact key.1 v (by simp_all)
  · next name v _ given =>
    split at h
    · obtain rfl := Option.some.inj h
      exact key.2 (name, v) (by simp_all)
    · cases h
  · cases h

end CacheKey

/-- Whether a request can be answered: it has a key, and the text of the key translates. -/
def succeeds (r : Option CacheKey) : Bool :=
  r.any fun k => k.translate.isOk

def answered (rs : List (Option CacheKey)) : List KeyClass :=
  (rs.filter succeeds).filterMap fun r => r.map CacheKey.keyClass

theorem mem_answered {rs : List (Option CacheKey)} {x : KeyClass} :
    x ∈ answered rs ↔ ∃ k, some k ∈ rs ∧ k.translate.isOk = true ∧ k.keyClass = x := by
  rw [answered, List.mem_filterMap]
  constructor
  · rintro ⟨_ | k, mem, same⟩
    · cases same
    · obtain ⟨mem, ok⟩ := List.mem_filter.mp mem
      exact ⟨k, mem, ok, Option.some.inj same⟩
  · rintro ⟨k, mem, ok, rfl⟩
    exact ⟨some k, List.mem_filter.mpr ⟨mem, ok⟩, rfl⟩

theorem mem_answered_concat {rs : List (Option CacheKey)} {k : CacheKey} {x : KeyClass} :
    x ∈ answered (rs ++ [some k]) ↔ x ∈ answered rs ∨ k.translate.isOk = true ∧ k.keyClass = x := by
  simp only [mem_answered, List.mem_append, List.mem_singleton, Option.some.injEq]
  constructor
  · rintro ⟨l, mem | rfl, ok, same⟩
    · exact .inl ⟨l, mem, ok, same⟩
    · exact .inr ⟨ok, same⟩
  · rintro (⟨l, mem, ok, same⟩ | ⟨ok, same⟩)
    · exact ⟨l, .inl mem, ok, same⟩
    · exact ⟨k, .inr rfl, ok, same⟩

namespace Cache

variable {c : Cache} {rs : List (Option CacheKey)} {k : CacheKey} {t : Compilation}

structure Tells (c : Cache) (rs : List (Option CacheKey)) : Prop where
  calls : c.hits + c.misses = rs.length
  stored : c.size = (answered rs).toFinset.card
  failures : c.misses = c.size + rs.countP fun r => !succeeds r

structure Holds (c : Cache) (rs : List (Option CacheKey)) : Prop where
  sound : ∀ e ∈ c.entries, e.1.isKey = true ∧ e.1.translate = .ok e.2
  distinct : (c.entries.map fun e => e.1.keyClass).Nodup
  keys : ∀ x, x ∈ c.entries.map (fun e => e.1.keyClass) ↔ x ∈ answered rs
  calls : c.hits + c.misses = rs.length
  failures : c.misses = c.size + rs.countP fun r => !succeeds r

theorem holds_empty : Holds {} [] where
  sound := by simp
  distinct := List.nodup_nil
  keys := by simp [answered]
  calls := rfl
  failures := rfl

theorem Holds.tells (h : c.Holds rs) : c.Tells rs where
  calls := h.calls
  stored := by
    have same : (c.entries.map fun e => e.1.keyClass).toFinset = (answered rs).toFinset := by
      ext x
      rw [List.mem_toFinset, List.mem_toFinset, h.keys]
    rw [← same, List.toFinset_card_of_nodup h.distinct, List.length_map, size]
  failures := h.failures

theorem Holds.translate_of_find? (h : c.Holds rs) (found : c.find? k = some t) :
    k.translate = .ok t ∧ k.keyClass ∈ answered rs := by
  obtain ⟨e, entry, rfl⟩ := Option.map_eq_some_iff.mp found
  have mem := List.mem_of_find?_eq_some entry
  obtain ⟨key, translated⟩ := h.sound e mem
  have same : e.1.keyClass = k.keyClass :=
    (CacheKey.same_iff key).mp (by simpa using List.find?_some entry)
  rw [← CacheKey.translate_eq key same, ← same, ← h.keys]
  exact ⟨translated, List.mem_map_of_mem mem⟩

theorem Holds.notMem_of_find? (h : c.Holds rs) (missing : c.find? k = none) :
    k.keyClass ∉ c.entries.map fun e => e.1.keyClass := by
  intro mem
  obtain ⟨e, entry, same⟩ := List.mem_map.mp mem
  have differs := List.find?_eq_none.mp (Option.map_eq_none_iff.mp missing) e entry
  exact differs ((CacheKey.same_iff (h.sound e entry).1).mpr same)

theorem Holds.hit (h : c.Holds rs) (ok : k.translate.isOk = true)
    (known : k.keyClass ∈ answered rs) : Holds { c with hits := c.hits + 1 } (rs ++ [some k]) where
  sound := h.sound
  distinct := h.distinct
  keys x := by
    rw [h.keys, mem_answered_concat]
    exact ⟨.inl, fun either => either.elim id fun own => own.2 ▸ known⟩
  calls := by
    have calls := h.calls
    simp only [List.length_append, List.length_singleton]
    omega
  failures := by
    have failures := h.failures
    simpa [size, succeeds, ok] using failures

theorem Holds.store (h : c.Holds rs) (key : k.isKey = true) (translated : k.translate = .ok t)
    (fresh : k.keyClass ∉ c.entries.map fun e => e.1.keyClass) :
    Holds { c with misses := c.misses + 1, entries := c.entries ++ [(k, t)] } (rs ++ [some k]) where
  sound e mem := by
    obtain mem | mem := List.mem_append.mp mem
    · exact h.sound e mem
    · obtain rfl := List.mem_singleton.mp mem
      exact ⟨key, translated⟩
  distinct := by
    rw [List.map_append]
    exact List.nodup_append_comm.mp (List.nodup_cons.mpr ⟨fresh, h.distinct⟩)
  keys x := by
    have ok : k.translate.isOk = true := by rw [translated]; rfl
    rw [List.map_append, List.mem_append, h.keys, mem_answered_concat]
    simp [ok, eq_comm]
  calls := by
    have calls := h.calls
    simp only [List.length_append, List.length_singleton]
    omega
  failures := by
    have failures := h.failures
    have ok : k.translate.isOk = true := by rw [translated]; rfl
    simp only [size, List.length_append, List.length_singleton, List.countP_append, succeeds] at *
    simp [ok]
    omega

theorem Holds.miss {r : Option CacheKey} (h : c.Holds rs) (fails : succeeds r = false) :
    Holds { c with misses := c.misses + 1 } (rs ++ [r]) where
  sound := h.sound
  distinct := h.distinct
  keys x := by
    have none : answered (rs ++ [r]) = answered rs := by simp [answered, fails]
    rw [none, h.keys]
  calls := by
    have calls := h.calls
    simp only [List.length_append, List.length_singleton]
    omega
  failures := by
    have failures := h.failures
    simp only [size, List.countP_append] at *
    simp [fails]
    omega

theorem Holds.ask (h : c.Holds rs) (key : k.isKey = true) :
    (c.ask k).1 = k.translate ∧ (c.ask k).2.Holds (rs ++ [some k]) := by
  unfold Cache.ask
  cases found : c.find? k with
  | some t =>
    obtain ⟨translated, known⟩ := h.translate_of_find? found
    exact ⟨translated.symm, h.hit (by rw [translated]; rfl) known⟩
  | none =>
    have fresh := h.notMem_of_find? found
    cases translated : k.translate with
    | ok t => exact ⟨rfl, h.store key translated fresh⟩
    | error e => exact ⟨rfl, h.miss (by simp [succeeds, translated, Except.isOk, Except.toBool])⟩

end Cache

namespace Step

variable {c : Cache} {rs : List (Option CacheKey)}

def isClear : Step → Bool
  | clear => true
  | _ => false

/-- The request for a compilation that a step makes, if it makes one that is counted. A request that
cannot succeed in any way has no key. -/
def request? : Step → Option (Option CacheKey)
  | translate s how => if how.isKey then some (CacheKey.ofCall? s how) else none
  | einsum s _ => some (some (.placed s (.bool true)))
  | einsumFast s _ => some (some (.placed s (.bool true)))
  | _ => none

def alone : Step → Except ExprError StepResult
  | clear => .ok .nothing
  | translate s how =>
    match if how.isKey then CacheKey.ofCall? s how else none with
    | some k => k.translate.map .compilation
    | none => .error (.fault .type)
  | einsum s ts => (AxisLang.einsum s ts).map .tensor
  | einsumFast s ts => (AxisLang.einsumFast s ts).map .tensor
  | parse s => (Spec.parse s).map .spec
  | compile source => do return .text (← (← source.read).compile).text
  | shapeCheck source shapes => do return .shapes (← Shape.check (← source.read).inputs shapes)

theorem evaluate_eq (c : Cache) (s : String) (f : Spec → Compiled → Except ExprError Tensor) :
    evaluate c s f = ((c.ask (.placed s (.bool true))).1 >>= fun t => withParsed t f,
      (c.ask (.placed s (.bool true))).2) := by
  unfold evaluate
  obtain ⟨answer, after⟩ := c.ask (.placed s (.bool true))
  cases answer <;> rfl

theorem translate_withParsed (s : String) (f : Spec → Compiled → Except ExprError Tensor) :
    ((CacheKey.placed s (.bool true)).translate >>= fun t => withParsed t f) =
      (Spec.parse s >>= fun spec => spec.compile >>= f spec).map .tensor := by
  unfold CacheKey.translate CacheKey.text
  cases Spec.parse s with
  | error e => rfl
  | ok spec =>
    change ((spec.compile >>= fun form => pure ⟨form, some spec⟩) >>= fun t => withParsed t f) =
      (spec.compile >>= f spec).map .tensor
    cases spec.compile with
    | error e => rfl
    | ok form =>
      change (f spec form >>= fun t => pure (StepResult.tensor t)) =
        (f spec form).map StepResult.tensor
      cases f spec form <;> rfl

theorem evaluate_holds (h : c.Holds rs) (s : String)
    (f : Spec → Compiled → Except ExprError Tensor) :
    (evaluate c s f).1 = (Spec.parse s >>= fun spec => spec.compile >>= f spec).map .tensor ∧
      (evaluate c s f).2.Holds (rs ++ [some (.placed s (.bool true))]) := by
  obtain ⟨answer, after⟩ := h.ask (k := .placed s (.bool true)) rfl
  rw [evaluate_eq, answer]
  exact ⟨translate_withParsed s f, after⟩

theorem run_translate (c : Cache) (s : String) (how : Call) :
    (translate s how).run c = ((c.call s how).1.map .compilation, (c.call s how).2) := by
  rw [run]
  obtain ⟨answer, after⟩ := c.call s how
  cases answer <;> rfl

/-- The step lemma of sessions: a step is answered as it is without a cache, and a cache that held for
the requests so far holds for those up to this step. -/
theorem run_holds (h : c.Holds rs) (st : Step) :
    (st.run c).1 = st.alone ∧
      (st.run c).2.Holds (if st.isClear then [] else rs ++ st.request?.toList) := by
  cases st with
  | clear => exact ⟨rfl, Cache.holds_empty⟩
  | translate s how =>
    rw [run_translate]
    unfold alone request? Cache.call
    by_cases key : how.isKey = true
    · cases found : CacheKey.ofCall? s how with
      | some k =>
        obtain ⟨answer, after⟩ := h.ask (CacheKey.isKey_of_ofCall? key found)
        simpa [key, found, isClear, answer] using after
      | none => simpa [key, found, isClear, Except.map] using h.miss (r := none) rfl
    · simpa [key, isClear, Except.map] using h
  | einsum s ts => exact evaluate_holds h s fun spec form => spec.evaluateAs form ts
  | einsumFast s ts => exact evaluate_holds h s fun _ form => Spec.contract form ts
  | parse s => exact ⟨rfl, by simpa [run, isClear, request?] using h⟩
  | compile source => exact ⟨rfl, by simpa [run, isClear, request?] using h⟩
  | shapeCheck source shapes => exact ⟨rfl, by simpa [run, isClear, request?] using h⟩

end Step

/-- The requests since the last time that the cache was cleared. -/
def requests (steps : List Step) : List (Option CacheKey) :=
  (steps.rtakeWhile fun st => !st.isClear).filterMap Step.request?

theorem requests_concat (steps : List Step) (st : Step) :
    requests (steps ++ [st]) = if st.isClear then [] else requests steps ++ st.request?.toList := by
  unfold requests
  rw [List.rtakeWhile_concat]
  cases st.isClear with
  | true => rfl
  | false =>
    simp only [Bool.not_false, if_true, Bool.false_eq_true, if_false, List.filterMap_append]
    cases made : st.request? <;> simp [made]

theorem runSteps_holds {c : Cache} (past pre : List Step) (st : Step) (post : List Step)
    (h : c.Holds (requests past)) :
    ∃ c', (runSteps c (pre ++ st :: post))[pre.length]? = some (st.alone, c') ∧
      c'.Holds (requests (past ++ pre ++ [st])) := by
  induction pre generalizing c past with
  | nil =>
    obtain ⟨answer, after⟩ := Step.run_holds h st
    rw [← requests_concat] at after
    refine ⟨_, ?_, by simpa using after⟩
    rw [← answer]
    rfl
  | cons first pre ih =>
    obtain ⟨_, after⟩ := Step.run_holds h first
    rw [← requests_concat] at after
    obtain ⟨c', answer, later⟩ := ih (past ++ [first]) after
    exact ⟨c', answer, by simpa using later⟩

/-- The cache does not show. At every place of a session that starts with an empty cache, the step is
answered as if it were the only one, which is as if there were no cache; and the counters tell the
requests made since the cache was last cleared. -/
theorem runSession_transparent (pre : List Step) (st : Step) (post : List Step) :
    ∃ c, (runSession (pre ++ st :: post))[pre.length]? = some ((st.run {}).1, c) ∧
      (st.run {}).1 = st.alone ∧ c.Tells (requests (pre ++ [st])) := by
  have single := (Step.run_holds Cache.holds_empty st).1
  obtain ⟨c, answer, holds⟩ := runSteps_holds [] pre st post Cache.holds_empty
  refine ⟨c, ?_, single, holds.tells⟩
  rw [single]
  exact answer

end AxisLang
