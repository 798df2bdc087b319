import AxisLang.Expression.Einsum

/-! Sessions: a sequence of requests over one cache of compilations. The cache remembers, for each
way a compilation was asked for, its result; failed requests are not remembered. -/
namespace AxisLang

structure Call where
  positional : List Datum := []
  named : List (String × Datum) := []
deriving Repr, Inhabited

/-- The ways to ask that can succeed: the text alone, with a value by place, or with a value by
name. They are different keys even where they mean the same. -/
inductive CacheKey where
  | alone (s : String)
  | placed (s : String) (v : Datum)
  | named (s : String) (v : Datum)
deriving Repr, Inhabited

structure Compilation where
  form : Compiled
  parsed : Option Spec := none
deriving Repr, Inhabited

def Compilation.compiled (t : Compilation) : String :=
  t.form.text

structure Cache where
  entries : List (CacheKey × Compilation) := []
  hits : Nat := 0
  misses : Nat := 0
deriving Repr, Inhabited

namespace CacheKey

def same : CacheKey → CacheKey → Bool
  | .alone s, .alone t => s == t
  | .placed s v, .placed t w => s == t && v.sameKey w
  | .named s v, .named t w => s == t && v.sameKey w
  | _, _ => false

def text : CacheKey → String
  | .alone s => s
  | .placed s _ => s
  | .named s _ => s

def wantsParsed : CacheKey → Bool
  | .alone _ => false
  | .placed _ v => v.truthy
  | .named _ v => v.truthy

/-- The key of a call, if the call can succeed. -/
def ofCall? (s : String) (c : Call) : Option CacheKey :=
  match c.positional, c.named with
  | [], [] => some (.alone s)
  | [v], [] => some (.placed s v)
  | [], [(name, v)] => if name = "return_parsed" then some (.named s v) else none
  | _, _ => none

end CacheKey

def Call.isKey (c : Call) : Bool :=
  c.positional.all Datum.isKey && c.named.all fun n => n.2.isKey

def CacheKey.translate (k : CacheKey) : Except ExprError Compilation := do
  let spec ← Spec.parse k.text
  let form ← spec.compile
  return ⟨form, if k.wantsParsed then some spec else none⟩

namespace Cache

def find? (c : Cache) (k : CacheKey) : Option Compilation :=
  (c.entries.find? fun e => e.1.same k).map (·.2)

def size (c : Cache) : Nat := c.entries.length

def ask (c : Cache) (k : CacheKey) : Except ExprError Compilation × Cache :=
  match c.find? k with
  | some t => (.ok t, { c with hits := c.hits + 1 })
  | none =>
    match k.translate with
    | .ok t => (.ok t, { c with misses := c.misses + 1, entries := c.entries ++ [(k, t)] })
    | .error e => (.error e, { c with misses := c.misses + 1 })

/-- Asks for a compilation in any way. A call whose values cannot be part of a key is not counted;
one that cannot succeed is. -/
def call (c : Cache) (s : String) (how : Call) : Except ExprError Compilation × Cache :=
  if !how.isKey then (.error (.fault .type), c)
  else
    match CacheKey.ofCall? s how with
    | some k => c.ask k
    | none => (.error (.fault .type), { c with misses := c.misses + 1 })

end Cache

inductive ExprSource where
  | text (s : String)
  | spec (s : Spec)
deriving Repr, Inhabited

def ExprSource.read : ExprSource → Except ExprError Spec
  | .text s => Spec.parse s
  | .spec s => .ok s

inductive Step where
  | clear
  | translate (s : String) (how : Call)
  | einsum (s : String) (arrays : List Tensor)
  | einsumFast (s : String) (arrays : List Tensor)
  | parse (s : String)
  | compile (source : ExprSource)
  | shapeCheck (source : ExprSource) (shapes : List Shape)
deriving Repr, Inhabited

inductive StepResult where
  | nothing
  | compilation (t : Compilation)
  | tensor (t : Tensor)
  | spec (s : Spec)
  | text (s : String)
  | shapes (ss : List Shape)
deriving Repr, Inhabited

namespace Step

def withParsed (t : Compilation) (f : Spec → Compiled → Except ExprError Tensor) :
    Except ExprError StepResult :=
  match t.parsed with
  | some s => do return .tensor (← f s t.form)
  | none => .error (.fault .value)

def evaluate (c : Cache) (s : String) (f : Spec → Compiled → Except ExprError Tensor) :
    Except ExprError StepResult × Cache :=
  match c.ask (.placed s (.bool true)) with
  | (.ok t, c) => (withParsed t f, c)
  | (.error e, c) => (.error e, c)

def run (c : Cache) : Step → Except ExprError StepResult × Cache
  | .clear => (.ok .nothing, {})
  | .translate s how =>
    match c.call s how with
    | (.ok t, c) => (.ok (.compilation t), c)
    | (.error e, c) => (.error e, c)
  | .einsum s arrays => evaluate c s fun spec form => spec.evaluateAs form arrays
  | .einsumFast s arrays => evaluate c s fun _ form => Spec.contract form arrays
  | .parse s => ((Spec.parse s).map .spec, c)
  | .compile source =>
    (do return .text (← (← source.read).compile).text, c)
  | .shapeCheck source shapes =>
    (do return .shapes (← Shape.check (← source.read).inputs shapes), c)

end Step

/-- Answers requests one after the other; with each answer comes the cache after it. -/
def runSteps (c : Cache) : List Step → List (Except ExprError StepResult × Cache)
  | [] => []
  | s :: ss =>
    let (r, c) := s.run c
    (r, c) :: runSteps c ss

def runSession (steps : List Step) : List (Except ExprError StepResult × Cache) :=
  runSteps {} steps

end AxisLang
