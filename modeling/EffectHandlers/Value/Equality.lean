/-
EffectHandlers/Value/Equality.lean

When two values are the same, and which values can be keys.

Truth values count as the numbers zero and one.  Lists, tuples and texts
never equal each other; a run result equals the tuple of its two parts.
Mappings, frozen or not, are equal when each has the entries of the other,
whatever their order.  Effects are equal when their requests are, chains
when their values or effects are: pipelines and declared capabilities do
not count.  Functions, handlers, cells and refusals are equal only to
themselves.

A value can be a key unless it is, or holds in a place that counts for
equality, a list or an unfrozen mapping.

That equality is an equivalence is in `EffectHandlers.Value.Equality.Lemmas`.
-/
import EffectHandlers.Value

namespace EffectHandlers

/-! ### Identities -/

/-- The identity of a function. -/
def Callable.id : Callable → Nat
  | .closure i _ _ _ | .fixpoint i _ _ _ _ | .program i _ _ _ _ => i
  | .resumption i _ => i

/-- The identity of a handler. -/
def Handler.id : Handler → Nat
  | .collector i | .emitter i _ _ | .transcript i _ | .stream i _ | .store i _
  | .counter i | .recorder i _ _ | .pair i _ _ | .custom i _ => i

/-- A truth value as a number. -/
def boolNumber (b : Bool) : Int := if b then 1 else 0

/-! ### Equality -/

mutual

/-- Whether two values are equal. -/
def Value.same : Value → Value → Bool
  | .null, .null => true
  | .bool a, .bool b => boolNumber a == boolNumber b
  | .bool a, .int b => boolNumber a == b
  | .int a, .bool b => a == boolNumber b
  | .int a, .int b => a == b
  | .text a, .text b => a == b
  | .list xs, .list ys => sameItems xs ys
  | .tuple xs, .tuple ys => sameItems xs ys
  | .tuple xs, .result v o => sameItems xs [v, o]
  | .result v o, .tuple [w, p] => v.same w && o.same p
  | .result v o, .result w p => v.same w && o.same p
  | .dict xs, .dict ys => entriesWithin xs ys && ys.all (hasEntry xs)
  | .dict xs, .frozen ys => entriesWithin xs ys && ys.all (hasEntry xs)
  | .frozen xs, .dict ys => entriesWithin xs ys && ys.all (hasEntry xs)
  | .frozen xs, .frozen ys => entriesWithin xs ys && ys.all (hasEntry xs)
  | .capability a, .capability b => a == b
  | .capabilities s, .capabilities t => s == t
  | .effect a, .effect b => a.same b
  | .chain a, .chain b => a.same b
  | .function a, .function b => a.id == b.id
  | .handler a, .handler b => a.id == b.id
  | .handled s n, .handled t m => s.same t && n.same m
  | .declined, .declined => true
  | .cell a, .cell b => a == b
  | .refusal a _, .refusal b _ => a == b
  | _, _ => false
termination_by structural v => v

/-- Whether two lists hold equal values place by place. -/
def sameItems : List Value → List Value → Bool
  | [], [] => true
  | x :: xs, y :: ys => x.same y && sameItems xs ys
  | _, _ => false
termination_by structural xs => xs

/-- Whether every entry of the first mapping is one of the second. -/
def entriesWithin : List (Value × Value) → List (Value × Value) → Bool
  | [], _ => true
  | (k, v) :: xs, ys => ys.any (fun e => k.same e.1 && v.same e.2) && entriesWithin xs ys
termination_by structural xs => xs

/-- Whether a mapping has an entry that equals the one given. -/
def hasEntry : List (Value × Value) → Value × Value → Bool
  | [], _ => false
  | (k, v) :: xs, e => (k.same e.1 && v.same e.2) || hasEntry xs e
termination_by structural xs => xs

/-- Whether two effects make the same request. -/
def Effect.same : Effect → Effect → Bool
  | ⟨r, _⟩, ⟨r', _⟩ => r.same r'
termination_by structural e => e

/-- Whether two requests are of one kind with equal fields. -/
def Request.same : Request → Request → Bool
  | .log m, .log m' => m.same m'
  | .loudLog m v, .loudLog m' v' => m.same m' && v.same v'
  | .writeLine t, .writeLine t' => t.same t'
  | .readLine, .readLine => true
  | .beep, .beep => true
  | .get k, .get k' => k.same k'
  | .put k v, .put k' v' => k.same k' && v.same v'
  | .modify k f, .modify k' f' => k.same k' && f.same f'
  | .poke k, .poke k' => k.same k'
  | .tick n, .tick n' => n.same n'
  | .custom a c p, .custom a' c' p' => a == a' && c == c' && p.same p'
  | _, _ => false
termination_by structural r => r

/-- Whether two chains are finished with equal values or suspended on equal effects. -/
def Chain.same : Chain → Chain → Bool
  | .done v _, .done w _ => v.same w
  | .suspended e _, .suspended e' _ => e.same e'
  | _, _ => false
termination_by structural c => c

end

/-! ### Truth -/

/-- Whether a value counts as true in a condition. -/
def Value.isTrue : Value → Bool
  | .null => false
  | .bool b => b
  | .int n => n != 0
  | .text s => !s.isEmpty
  | .list xs | .tuple xs => !xs.isEmpty
  | .dict es | .frozen es => !es.isEmpty
  | .capabilities s => !s.isEmpty
  | _ => true

/-! ### Keys -/

mutual

/-- The name of the type that keeps a value from being a key, if there is one. -/
def Value.keyFault? : Value → Option String
  | .list _ => some "list"
  | .dict _ => some "dict"
  | .tuple xs => itemsKeyFault? xs
  | .result v o => v.keyFault? <|> o.keyFault?
  | .frozen es => entriesKeyFault? es
  | .effect e => e.keyFault?
  | .chain c => c.keyFault?
  | .handled s n => s.keyFault? <|> n.keyFault?
  | _ => none
termination_by structural v => v

/-- The first fault in a list of values. -/
def itemsKeyFault? : List Value → Option String
  | [] => none
  | x :: xs => x.keyFault? <|> itemsKeyFault? xs
termination_by structural xs => xs

/-- The first fault in a list of entries. -/
def entriesKeyFault? : List (Value × Value) → Option String
  | [] => none
  | (k, v) :: es => k.keyFault? <|> v.keyFault? <|> entriesKeyFault? es
termination_by structural es => es

/-- The first fault in the request of an effect. -/
def Effect.keyFault? : Effect → Option String
  | ⟨r, _⟩ => r.keyFault?
termination_by structural e => e

/-- The first fault in the fields of a request. -/
def Request.keyFault? : Request → Option String
  | .log m => m.keyFault?
  | .loudLog m v => m.keyFault? <|> v.keyFault?
  | .writeLine t => t.keyFault?
  | .readLine => none
  | .beep => none
  | .get k => k.keyFault?
  | .put k v => k.keyFault? <|> v.keyFault?
  | .modify k f => k.keyFault? <|> f.keyFault?
  | .poke k => k.keyFault?
  | .tick n => n.keyFault?
  | .custom _ _ p => p.keyFault?
termination_by structural r => r

/-- The fault in the value or in the effect of a chain. -/
def Chain.keyFault? : Chain → Option String
  | .done v _ => v.keyFault?
  | .suspended e _ => e.keyFault?
termination_by structural c => c

end

end EffectHandlers
