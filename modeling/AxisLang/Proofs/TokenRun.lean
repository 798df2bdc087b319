import AxisLang.Parser.Stream
import AxisLang.Proofs.Items

/-! Runs of the machine over a list of tokens, without a layout between lexer and machine.
On a table that passes both checks, a run accepts exactly what the start rule derives, with the value
of the derivation, and a failed run has an explained cause. -/
namespace AxisLang

namespace RunConf

variable {α : Type} {c : RunConf α} {f : Table.Frame} {p : Progress α} {x : Token}
  {ts w : List Token}

@[simp] theorem endToken_kind (last : Option Token) : (endToken last).kind = Token.endKind := by
  unfold endToken
  cases last with
  | none => rfl
  | some t => dsimp only; split <;> rfl

theorem advance_single (plain : c.layout = none) (p : Progress α) (x : Token) :
    c.advance p (c.filtered p x) =
      match Machine.feed c.table c.semantics c.final false x p.stack with
      | .shifted stack => .ok { p with stack, last := some x }
      | .accepted _ stack => .ok { p with stack, last := some x }
      | .failed e stack => .error ⟨e, stack.states⟩ := by
  rw [filtered, plain, advance, feedAll]
  cases Machine.feed c.table c.semantics c.final false x p.stack <;> rfl

theorem conclude_eq (plain : c.layout = none) (p : Progress α) :
    c.conclude p =
      match Machine.feed c.table c.semantics c.final true (endToken p.last) p.stack with
      | .accepted v _ => .ok v
      | .shifted stack => .error ⟨.fault .assertion "", stack.states⟩
      | .failed e stack => .error ⟨e, stack.states⟩ := by
  rw [conclude, closing, plain]
  rfl

theorem run_nil (p : Progress α) : c.run (.tokens []) p = c.conclude p := by
  rw [run]
  rfl

theorem run_cons (plain : c.layout = none) (p : Progress α) (x : Token) (ts : List Token) :
    c.run (.tokens (x :: ts)) p =
      match Machine.feed c.table c.semantics c.final false x p.stack with
      | .shifted stack => c.run (.tokens ts) { p with stack, last := some x }
      | .accepted _ stack => c.run (.tokens ts) { p with stack, last := some x }
      | .failed e stack => .error ⟨e, stack.states⟩ := by
  rw [run]
  simp only [TokenStream.next, advance_single plain]
  cases Machine.feed c.table c.semantics c.final false x p.stack <;>
    simp [TokenStream.size]

theorem run_append (plain : c.layout = none) {p' : Progress α} (fed : c.feedAll ts p = .ok p')
    (us : List Token) : c.run (.tokens (ts ++ us)) p = c.run (.tokens us) p' := by
  induction ts generalizing p with
  | nil =>
    obtain rfl : p = p' := Except.ok.inj fed
    rfl
  | cons x ts ih =>
    rw [List.cons_append, run_cons plain]
    rw [feedAll] at fed
    cases result : Machine.feed c.table c.semantics c.final false x p.stack with
    | shifted s => rw [result] at fed; exact ih fed
    | accepted v s => rw [result] at fed; exact ih fed
    | failed e s => rw [result] at fed; exact absurd fed (by simp)

def Yields (f : Table.Frame) (sem : Semantics α) (w : List Token) : Except RunFailure α → Prop
  | .ok v => Derives f.rules sem [f.start] w [v]
  | .error e => ∃ x, Machine.Explained f sem x e.error

/-- The run lemma: what a run accepts is derived from the start rule. -/
theorem run_yields (sound : c.table.isSound f = true) (final : c.final = f.final)
    (plain : c.layout = none) (ends : Token.endKind ∉ f.symbols)
    (reached : Machine.Reached c.table f c.semantics p.stack w)
    (kinds : ∀ x ∈ ts, x.kind ∉ f.symbols) :
    Yields f c.semantics (w ++ ts) (c.run (.tokens ts) p) := by
  induction ts generalizing p w with
  | nil =>
    rw [run_nil, conclude_eq plain, List.append_nil, final]
    have outcome := reached.feed sound true (endToken p.last)
      (by rw [endToken_kind]; exact ends) (fun _ => endToken_kind _)
    cases fed : Machine.feed c.table c.semantics f.final true (endToken p.last) p.stack with
    | shifted s => rw [fed] at outcome; exact absurd outcome.1 (by simp)
    | accepted v s => rw [fed] at outcome; exact outcome.2
    | failed e s => rw [fed] at outcome; exact ⟨_, outcome⟩
  | cons x ts ih =>
    rw [run_cons plain, final]
    have outcome := reached.feed sound false x (kinds x (by simp)) (by simp)
    cases fed : Machine.feed c.table c.semantics f.final false x p.stack with
    | shifted s =>
      rw [fed] at outcome
      rw [List.append_cons]
      exact ih outcome.2 fun y hy => kinds y (by simp [hy])
    | accepted v s => rw [fed] at outcome; exact absurd outcome.1 (by simp)
    | failed e s => rw [fed] at outcome; exact ⟨_, outcome⟩

theorem conclude_again (sound : c.table.isSound f = true) (final : c.final = f.final)
    (plain : c.layout = none) (ends : Token.endKind ∉ f.symbols)
    (reached : Machine.Reached c.table f c.semantics p.stack w) {s : Stack α}
    (eq : Machine.step c.table c.semantics f.final true (endToken p.last) p.stack = .again s) :
    c.conclude p = c.conclude { p with stack := s } := by
  rw [conclude_eq plain, conclude_eq plain, final]
  rw [Machine.feed_again sound reached (by rw [endToken_kind]; exact ends)
    (fun _ => endToken_kind _) eq]

theorem run_again (sound : c.table.isSound f = true) (final : c.final = f.final)
    (plain : c.layout = none) (reached : Machine.Reached c.table f c.semantics p.stack w)
    (kind : x.kind ∉ f.symbols) {s : Stack α}
    (eq : Machine.step c.table c.semantics f.final false x p.stack = .again s) :
    c.run (.tokens (x :: ts)) p = c.run (.tokens (x :: ts)) { p with stack := s } := by
  rw [run_cons plain, run_cons plain, final]
  rw [Machine.feed_again sound reached kind (by simp) eq]

theorem run_of_steps (sound : c.table.isSound f = true) (final : c.final = f.final)
    (plain : c.layout = none) (ends : Token.endKind ∉ f.symbols) {v : α} {s s' : Stack α}
    {e : Token} {config : Stack α × List Token}
    (steps : Relation.ReflTransGen (Machine.Next c.table c.semantics f.final) config (s, [e]))
    (accepts : Machine.step c.table c.semantics f.final true e s = .done (.accepted v s'))
    (here : config = (p.stack, ts ++ [e])) (last : e = endToken (ts.getLast?.or p.last))
    (reached : Machine.Reached c.table f c.semantics p.stack w)
    (kinds : ∀ x ∈ ts, x.kind ∉ f.symbols) : c.run (.tokens ts) p = .ok v := by
  induction steps using Relation.ReflTransGen.head_induction_on generalizing p ts w with
  | refl =>
    obtain ⟨rfl, same⟩ := Prod.mk.inj here
    obtain rfl : ts = [] := by simpa using congrArg List.length same
    obtain rfl : e = endToken p.last := last
    rw [run_nil, conclude_eq plain, final, Machine.feed_done accepts]
  | @head config next step later ih =>
    subst here
    cases ts with
    | nil =>
      obtain rfl : e = endToken p.last := last
      have kind : (endToken p.last).kind ∉ f.symbols := by rw [endToken_kind]; exact ends
      have after := reached.step sound kind fun (_ : true = true) => endToken_kind _
      obtain ⟨s₁, eq, rfl⟩ | ⟨s₁, eq, rfl⟩ := Machine.Next.inv step
      · rw [List.isEmpty_nil] at eq
        rw [eq] at after
        rw [run_nil, conclude_again sound final plain ends reached eq, ← run_nil]
        exact ih rfl rfl after.1 kinds
      · rw [List.isEmpty_nil] at eq
        rw [eq] at after
        exact absurd after.1 (by simp)
    | cons y ts =>
      rw [List.cons_append] at step
      have kind := kinds y (by simp)
      have more : (ts ++ [e]).isEmpty = false := by simp
      have after := reached.step sound kind fun (h : false = true) => absurd h (by simp)
      obtain ⟨s₁, eq, rfl⟩ | ⟨s₁, eq, rfl⟩ := Machine.Next.inv step
      · rw [more] at eq
        rw [eq] at after
        rw [run_again sound final plain reached kind eq]
        exact ih rfl last after.1 kinds
      · rw [more] at eq
        rw [eq] at after
        rw [run_cons plain, final, Machine.feed_done eq]
        refine ih rfl ?_ after.2 fun z hz => kinds z (by simp [hz])
        rw [last, List.getLast?_cons]
        cases ts.getLast? <;> rfl

theorem run_of_derives (sound : c.table.isSound f = true) (final : c.final = f.final)
    (plain : c.layout = none) (ends : Token.endKind ∉ f.symbols) {o : Outlook}
    {kinds : List String} (complete : o.isComplete c.table f kinds = true) {v : α}
    (first : p.stack = ⟨[f.first], []⟩) (h : Derives f.rules c.semantics [f.start] ts [v])
    (known : ∀ x ∈ ts, x.kind ∈ kinds) (tokens : ∀ k ∈ kinds, k ∉ f.symbols) :
    c.run (.tokens ts) p = .ok v := by
  obtain ⟨s, steps, s', accepts⟩ := Machine.reads_start complete h known
    (endToken_kind (ts.getLast?.or p.last))
  refine run_of_steps sound final plain ends steps accepts ?_ rfl (w := []) ?_ ?_
  · rw [first]
  · rw [first]
    exact .start
  · exact fun x hx => tokens _ (known x hx)

end RunConf

end AxisLang
