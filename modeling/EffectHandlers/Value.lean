/-
EffectHandlers/Value.lean

The values that programs compute with.

Effects are data: a request and the pipeline of stages that turns the
answer into the rest of the program.  A chain is a program: finished with a
value, or suspended on an effect whose pipeline ends in the next chain.

Design.  Requests, answers, handler states and results are all values of
one dynamic type, because a program may put any value anywhere: a chain in
a log entry, a function under a key, a handler in a list.  Functions are
closures.  The continuations that the library makes itself are not
closures; they are constructors of `Stage`, `Binder` and `Callable`, so
that the shape of a pipeline can be inspected and reasoned about.

Functions, handlers, cells and refusals have an identity, a number drawn
when they are made; everything else is compared by its contents.
-/
import EffectHandlers.Script.Expr

namespace EffectHandlers

mutual

/-- A value. -/
inductive Value
  | null
  | bool (b : Bool)
  | int (n : Int)
  | text (s : String)
  | list (items : List Value)
  | tuple (items : List Value)
  | dict (entries : List (Value × Value))
  | frozen (entries : List (Value × Value))
  | capability (c : Capability)
  | capabilities (s : CapabilitySet)
  | effect (e : Effect)
  | chain (c : Chain)
  | function (f : Callable)
  | handler (h : Handler)
  | handled (state next : Value)
  | declined
  | result (value output : Value)
  | cell (address : Nat)
  | refusal (id : Nat) (r : Refusal)

/-- A request to the environment. -/
inductive Request
  | log (message : Value)
  | loudLog (message volume : Value)
  | writeLine (line : Value)
  | readLine
  | beep
  | get (key : Value)
  | put (key value : Value)
  | modify (key function : Value)
  | poke (key : Value)
  | tick (amount : Value)
  | custom (name capability : String) (payload : Value)

/-- A request together with the stages that its answer goes through, first stage first. -/
structure Effect where
  request : Request
  pipeline : List Stage

/-- A program: finished, or waiting for the answer to an effect. -/
inductive Chain
  | done (value : Value) (requires : CapabilitySet)
  | suspended (effect : Effect) (requires : CapabilitySet)

/-- One stage of a pipeline: a function, the lifting of a value to a finished chain, or the
continuation of a chain by a binder. -/
inductive Stage
  | call (f : Callable)
  | lift
  | bind (b : Binder)

/-- What a chain is continued with, given its value.

* `call f` is the chain that `f` gives;
* `map f` finishes with what `f` gives;
* `always c` is `c`;
* `gather c` takes the list collected so far and adds the value of `c` to it;
* `append xs` finishes with `xs` and the value at its end. -/
inductive Binder
  | call (f : Callable)
  | map (f : Callable)
  | always (next : Chain)
  | gather (next : Chain)
  | append (collected : List Value)

/-- A function.

* `closure` and `fixpoint` are made by expressions, the second one sees itself under a name;
* `program` makes a chain out of a routine;
* `resumption` goes on with a routine from one of its yields: an invocation and a history of
  the world. -/
inductive Callable
  | closure (id : Nat) (params : List String) (body : Expr) (env : List (String × Value))
  | fixpoint (id : Nat) (name : String) (params : List String) (body : Expr)
      (env : List (String × Value))
  | program (id : Nat) (requires : CapabilitySet) (params : List String) (body : Routine)
      (env : List (String × Value))
  | resumption (invocation history : Nat)

/-- An interpreter of requests.

* `collector` keeps log entries, `emitter` passes them on;
* `transcript` answers console requests from given lines, `stream` from a text of the world;
* `store` is keyed state, `counter` a total;
* `recorder` notes its calls in a journal of the world;
* `pair` is two handlers, tried in turn;
* `custom` consists of functions of the program. -/
inductive Handler
  | collector (id : Nat)
  | emitter (id : Nat) (level component : Value)
  | transcript (id : Nat) (lines : List Value)
  | stream (id : Nat) (source : Nat)
  | store (id : Nat) (initial : List (Value × Value))
  | counter (id : Nat)
  | recorder (id : Nat) (journal : Nat) (inner : Handler)
  | pair (id : Nat) (first second : Handler)
  | custom (id : Nat) (methods : CustomMethods)

/-- What a custom handler consists of.  A method that is absent is the one of the base. -/
structure CustomMethods where
  name : String
  base : HandlerBase
  kind : Option Kind
  capabilities : CapabilitySet
  start : Option Value
  step : Option Value
  offer : Option Value
  finish : Option Value

/-- A failure that is also a value. -/
inductive Refusal
  | unhandledEffect (effect : Effect)
  | missingCapability (missing : CapabilitySet)
  | capabilityConflict (overlap : CapabilitySet)
  | consoleInputExhausted (consumed : Option Int)

end

/-- Bindings of variables, each name once. -/
abbrev Env := List (String × Value)

instance : Inhabited Value := ⟨.null⟩

instance : Inhabited Chain := ⟨.done .null ∅⟩

instance : Inhabited Callable := ⟨.closure 0 [] default []⟩

instance : Inhabited Handler := ⟨.collector 0⟩

/-! ### Requests and effects -/

/-- The kind of a request. -/
def Request.kind : Request → Kind
  | .log _ => .log
  | .loudLog _ _ => .loudLog
  | .writeLine _ => .writeLine
  | .readLine => .readLine
  | .beep => .beep
  | .get _ => .get
  | .put _ _ => .put
  | .modify _ _ => .modify
  | .poke _ => .poke
  | .tick _ => .tick
  | .custom n c _ => .custom n c

/-- The capability that a request belongs to. -/
def Request.capability : Request → Capability
  | .log _ | .loudLog _ _ => ⟨"log"⟩
  | .writeLine _ | .readLine | .beep => ⟨"console"⟩
  | .get _ | .put _ _ | .modify _ _ | .poke _ => ⟨"state"⟩
  | .tick _ => ⟨"counter"⟩
  | .custom _ c _ => ⟨c⟩

theorem Request.capability?_kind (r : Request) : r.kind.capability? = some r.capability := by
  cases r <;> rfl

/-- The fields of a request by name, in the order in which they are shown. -/
def Request.fields : Request → List (String × Value)
  | .log m => [("message", m)]
  | .loudLog m v => [("message", m), ("volume", v)]
  | .writeLine t => [("text", t)]
  | .readLine | .beep => []
  | .get k => [("key", k)]
  | .put k v => [("key", k), ("value", v)]
  | .modify k f => [("key", k), ("func", f)]
  | .poke k => [("key", k)]
  | .tick n => [("amount", n)]
  | .custom _ _ p => [("payload", p)]

/-- Whether a request is of a kind, or of one that the kind covers. -/
def Request.isA (r : Request) (k : Kind) : Bool := r.kind.isCoveredBy k

/-- An effect whose answer goes through no stage. -/
def Effect.of (r : Request) : Effect := ⟨r, []⟩

/-- The capability that an effect belongs to. -/
def Effect.capability (e : Effect) : Capability := e.request.capability

/-! ### Chains -/

/-- The capabilities that a chain declares. -/
def Chain.requires : Chain → CapabilitySet
  | .done _ r => r
  | .suspended _ r => r

/-- Whether a chain is finished. -/
def Chain.isDone : Chain → Bool
  | .done _ _ => true
  | .suspended _ _ => false

/-- The chain with its declaration replaced. -/
def Chain.setRequires : Chain → CapabilitySet → Chain
  | .done v _, r => .done v r
  | .suspended e _, r => .suspended e r

/-! ### Environments -/

/-- The value of a variable. -/
def Env.lookup (env : Env) (name : String) : Option Value :=
  match env with
  | [] => none
  | (n, v) :: rest => if n = name then some v else Env.lookup rest name

/-- The environment with a variable bound, its old binding gone. -/
def Env.set (env : Env) (name : String) (v : Value) : Env :=
  match env with
  | [] => [(name, v)]
  | (n, w) :: rest => if n = name then (n, v) :: rest else (n, w) :: Env.set rest name v

/-- The environment with parameters bound to arguments, or nothing if their numbers differ. -/
def Env.setAll? : Env → List String → List Value → Option Env
  | env, [], [] => some env
  | env, p :: ps, a :: as => Env.setAll? (Env.set env p a) ps as
  | _, _, _ => none

/-- After a variable is bound it has its value, and the others have what they had. -/
theorem Env.lookup_set (env : Env) (n : String) (v : Value) (m : String) :
    Env.lookup (Env.set env n v) m = if n = m then some v else Env.lookup env m := by
  induction env with
  | nil => rfl
  | cons b rest ih =>
    obtain ⟨k, w⟩ := b
    unfold Env.set
    split
    · rename_i h
      simp only [Env.lookup, h]
      split <;> rfl
    · rename_i h
      simp only [Env.lookup, ih]
      split
      · rename_i hk
        rw [if_neg fun hn => h (hk.trans hn.symm)]
      · rfl

end EffectHandlers
