/-
EffectHandlers/Proofs/Variation.lean

Programs with one side of a law in place of the other.

Two texts are variations of each other if they are the same but for the
state laws: somewhere one of them has one side of a law, and the other one
has the other side.  The two sides of a law are different chains, and so
what has been varied must not be looked into: it may be continued, put into
a sequence, returned by functions, yielded by routines and run, and lists of
such chains may be folded and looped over.  What may be done with a value is
its role, and the roles of variables are a scope.

The sides of a law are texts like all others.  Their functions are made
where the text is evaluated.

Main definitions: texts that vary (`Expr.Varies`, `Stmt.Varies`), and texts
that surely have a value and do nothing but make it (`Surely`).
-/
import EffectHandlers.Proofs.Link.Items
import EffectHandlers.Script.Eval

namespace EffectHandlers

/-! ### Roles -/

/-- What is known of two values that stand in one place.

* `plain`: they are counterparts, so everything may be done with them;
* `known v v'`: they are these counterparts;
* `waiting`: they are chains that wait for an answer;
* `made`: they are chains;
* `chain`: they are chains, or counterparts;
* `chains`: they are lists of chains, or counterparts;
* `function takes gives`: they are functions that take arguments in some roles to a value in a role;
* `callable takes gives`: they are such functions, or counterparts;
* `builder takes`: they are functions that make a chain of such arguments and do nothing else;
* `shipped`: they are counterparts, and combinations of handlers of the library;
* `served`: the same, and there is a store among the handlers;
* `outcome`: they are results of runs with counterparts as values, and their outputs are
  counterparts but for the order of the keys that stores hold;
* `unknown`: nothing is known of them. -/
inductive Role
  | plain
  | known (v v' : Value)
  | waiting
  | made
  | chain
  | chains
  | function (takes : List Role) (gives : Role)
  | callable (takes : List Role) (gives : Role)
  | builder (takes : List Role)
  | shipped
  | served
  | outcome
  | unknown

namespace Role

/-- Values in this role are counterparts. -/
def IsPlain : Role → Prop
  | .plain | .known _ _ | .shipped | .served => True
  | _ => False

/-- Counterparts have this role. -/
def HasPlain : Role → Prop
  | .plain | .chain | .chains | .outcome | .unknown => True
  | .callable takes gives => (∀ ρ ∈ takes, ρ.IsPlain) ∧ gives.HasPlain
  | .known _ _ | .waiting | .made | .function _ _ | .builder _ | .shipped | .served => False

/-- What has the first role has the second one. -/
inductive Le : Role → Role → Prop
  | refl (ρ : Role) : Le ρ ρ
  | plain {ρ σ : Role} (hρ : ρ.IsPlain) (hσ : σ.HasPlain) : Le ρ σ
  | waiting_made : Le .waiting .made
  | waiting_chain : Le .waiting .chain
  | made_chain : Le .made .chain
  | known_function {f f' : Callable} {takes : List Role} {gives : Role}
      (h : (Role.callable takes gives).HasPlain) :
    Le (.known (.function f) (.function f')) (.function takes gives)
  | function_callable (takes : List Role) (gives : Role) :
    Le (.function takes gives) (.callable takes gives)
  | builder_function (takes : List Role) : Le (.builder takes) (.function takes .chain)
  | builder_callable (takes : List Role) : Le (.builder takes) (.callable takes .chain)
  | served_shipped : Le .served .shipped
  | unknown (ρ : Role) : Le ρ .unknown

instance : LE Role := ⟨Role.Le⟩

theorem le_refl (ρ : Role) : ρ ≤ ρ := .refl ρ

/-- The role of the function of a continuation. -/
abbrev continuation : Role := .callable [.plain] .chain

/-- The role of a function from values to values. -/
abbrev mapping : Role := .callable [.plain] .plain

/-- The items of values in the first role have the second role. -/
inductive Items : Role → Role → Prop
  | plain : Items .plain .plain
  | chains : Items .chains .chain

/-- The role of the result of a run. -/
def ofRun (loose : Bool) : Role := if loose then .outcome else .plain

end Role

/-- What is known of a variable: the role of its values, and whether it has one. -/
structure Slot where
  role : Role
  bound : Bool

/-- As much as is known in the second slot is known in the first one. -/
structure Slot.Le (a b : Slot) : Prop where
  role : a.role ≤ b.role
  bound : b.bound = true → a.bound = true

instance : LE Slot := ⟨Slot.Le⟩

/-- What is known of variables. -/
abbrev Scope := String → Slot

namespace Scope

/-- The scope in which a variable is bound. -/
def set (Γ : Scope) (x : String) (ρ : Role) : Scope := Function.update Γ x ⟨ρ, true⟩

/-- The scope in which parameters are bound. -/
def setAll : Scope → List String → List Role → Scope
  | Γ, p :: ps, ρ :: ρs => setAll (Γ.set p ρ) ps ρs
  | Γ, _, _ => Γ

end Scope

/-! ### The texts of the laws -/

namespace Expr

/-- Read a key. -/
def getAt (k : Expr) : Expr := .op (.chain .get) [k]

/-- Store a value under a key. -/
def putAt (k v : Expr) : Expr := .op (.chain .put) [k, v]

/-- Apply a function to what is under a key. -/
def modifyAt (k f : Expr) : Expr := .op (.chain .modify) [k, f]

/-- Continue a chain with a function. -/
def bindTo (c f : Expr) : Expr := .op (.chain .bind) [c, f]

/-- Apply a function to the value of a chain. -/
def mapBy (c f : Expr) : Expr := .op (.chain .fmap) [c, f]

/-- One chain, then another. -/
def andThen (c d : Expr) : Expr := .op (.chain .andThen) [c, d]

/-- The finished chain of a value. -/
def lift (v : Expr) : Expr := .op (.chain .lift) [v]

/-- Run a chain against a handler. -/
def runOn (c h : Expr) : Expr := .op (.handler .runChain) [c, h]

/-- Call a function on one argument. -/
def callOn (f v : Expr) : Expr := .op (.data .call) [f, v]

/-- Read a key, apply a function, store what it gives, and give it. -/
def modifyInSteps (k f : Expr) (v n : String) : Expr :=
  bindTo (getAt k)
    (.lambda [v] (.letIn n (callOn f (.var v)) (andThen (putAt k (.var n)) (lift (.var n)))))

/-- Apply one function, then another. -/
def inTurn (f g : Expr) (x : String) : Expr := .lambda [x] (callOn g (callOn f (.var x)))

end Expr

/-- Whether an operation on chains makes one request of so many values, and does nothing else. -/
def ChainOp.asks : ChainOp → Nat → Bool
  | .write, 1 | .writeLine, 1 | .readLine, 0 | .get, 1 | .put, 2 | .modify, 2 | .tick, 0
  | .tick, 1 => true
  | _, _ => false

/-- Whether an operation only asks what is the same of all sides of a law. -/
def ChainOp.sees : ChainOp → Bool
  | .isChain | .isDone | .requires => true
  | _ => false

/-- Whether an operation makes a handler of the library that is no store. -/
def HandlerOp.ships : HandlerOp → Bool
  | .collector | .emitter | .emitterFor | .transcript | .stream | .counter => true
  | _ => false

/-- A literal, or a variable that has a value, and what is known of it. -/
inductive Scope.Atom (Γ : Scope) : Role → Expr → Prop
  | literal (l : Literal) : Atom Γ (.known l.value l.value) (.literal l)
  | var {x : String} (h : (Γ x).bound = true) (hx : (Γ x).role ≠ .unknown) :
    Atom Γ (Γ x).role (.var x)
  | weaken {ρ σ : Role} {e : Expr} (h : Atom Γ ρ e) (hρ : ρ ≤ σ) : Atom Γ σ e

/-! ### Variations -/

mutual

/-- Two expressions that vary in a scope, and the role of what they come to.  Where `loose` is set,
values may be stored under two keys in either order. -/
inductive Expr.Varies (loose : Bool) : Scope → Role → Expr → Expr → Prop
  /- The same text. -/
  | same {Γ : Scope} {e : Expr} (h : ∀ x ∈ e.names, (Γ x).role.IsPlain) :
    Expr.Varies loose Γ .plain e e
  | literal (Γ : Scope) (l : Literal) :
    Expr.Varies loose Γ (.known l.value l.value) (.literal l) (.literal l)
  | var {Γ : Scope} {x : String} (hx : (Γ x).role ≠ .unknown) :
    Expr.Varies loose Γ (Γ x).role (.var x) (.var x)
  | weaken {Γ : Scope} {ρ σ : Role} {e e' : Expr} (h : Expr.Varies loose Γ ρ e e') (hρ : ρ ≤ σ) :
    Expr.Varies loose Γ σ e e'
  /- Functions. -/
  | lambda {Γ : Scope} {ρ : Role} {params : List String} {body body' : Expr} (takes : List Role)
      (h : Expr.Varies loose (Γ.setAll params takes) ρ body body') :
    Expr.Varies loose Γ (.function takes ρ) (.lambda params body) (.lambda params body')
  | builder {Γ : Scope} {params : List String} {body body' : Expr} (takes : List Role)
      (hparams : params.length = takes.length)
      (h : Surely loose (Γ.setAll params takes) .made body body') :
    Expr.Varies loose Γ (.builder takes) (.lambda params body) (.lambda params body')
  | fixpoint {Γ : Scope} {ρ : Role} {name : String} {params : List String} {body body' : Expr}
      (takes : List Role)
      (h : Expr.Varies loose ((Γ.set name (.function takes ρ)).setAll params takes) ρ body body') :
    Expr.Varies loose Γ (.function takes ρ) (.fixpoint name params body)
      (.fixpoint name params body')
  | program {Γ Δ : Scope} {requires : List Expr} {params : List String} {body body' : Routine}
      (takes : List Role) (hrequires : ∀ x ∈ exprsNames requires, (Γ x).role.IsPlain)
      (hscope : ∀ x, Γ.setAll params takes x ≤ Δ x) (h : Routine.Varies loose Δ body body') :
    Expr.Varies loose Γ (.function takes .chain) (.program requires params body)
      (.program requires params body')
  /- Control. -/
  | cond {Γ : Scope} {ρ : Role} {test test' yes yes' no no' : Expr}
      (htest : Expr.Varies loose Γ .plain test test') (hyes : Expr.Varies loose Γ ρ yes yes')
      (hno : Expr.Varies loose Γ ρ no no') :
    Expr.Varies loose Γ ρ (.cond test yes no) (.cond test' yes' no')
  | letIn {Γ : Scope} {ρ σ : Role} {x : String} {e e' body body' : Expr}
      (he : Expr.Varies loose Γ σ e e') (hbody : Expr.Varies loose (Γ.set x σ) ρ body body') :
    Expr.Varies loose Γ ρ (.letIn x e body) (.letIn x e' body')
  | block {Γ : Scope} {σs : List Role} {ρ : Role} {es es' : List Expr} {e e' : Expr}
      (hes : exprsVary loose Γ σs es es') (he : Expr.Varies loose Γ ρ e e') :
    Expr.Varies loose Γ ρ (.block (es ++ [e])) (.block (es' ++ [e']))
  /- Operations on values, and on what has been varied. -/
  | op {Γ : Scope} {args args' : List Expr} (o : Op)
      (h : exprsVary loose Γ (args.map fun _ => .plain) args args') :
    Expr.Varies loose Γ .plain (.op o args) (.op o args')
  | call {Γ : Scope} {ρ : Role} {takes : List Role} {f f' : Expr} {args args' : List Expr}
      (hf : Expr.Varies loose Γ (.callable takes ρ) f f') (h : exprsVary loose Γ takes args args') :
    Expr.Varies loose Γ ρ (.op (.data .call) (f :: args)) (.op (.data .call) (f' :: args'))
  | list {Γ : Scope} {args args' : List Expr}
      (h : exprsVary loose Γ (args.map fun _ => .chain) args args') :
    Expr.Varies loose Γ .chains (.op (.data .list) args) (.op (.data .list) args')
  | fold {Γ : Scope} {ρ σ τ : Role} {items items' acc acc' f f' : Expr} (hσ : σ.Items τ)
      (hitems : Expr.Varies loose Γ σ items items') (hacc : Expr.Varies loose Γ ρ acc acc')
      (hf : Expr.Varies loose Γ (.callable [ρ, τ] ρ) f f') :
    Expr.Varies loose Γ ρ (.op (.data .fold) [items, acc, f])
      (.op (.data .fold) [items', acc', f'])
  | seen {Γ : Scope} {o : ChainOp} {c c' : Expr} (ho : o.sees = true)
      (hc : Expr.Varies loose Γ .chain c c') :
    Expr.Varies loose Γ .plain (.op (.chain o) [c]) (.op (.chain o) [c'])
  | bind {Γ : Scope} {c c' f f' : Expr} (hc : Expr.Varies loose Γ .chain c c')
      (hf : Expr.Varies loose Γ .continuation f f') :
    Expr.Varies loose Γ .chain (.bindTo c f) (.bindTo c' f')
  | fmap {Γ : Scope} {c c' f f' : Expr} (hc : Expr.Varies loose Γ .chain c c')
      (hf : Expr.Varies loose Γ .mapping f f') :
    Expr.Varies loose Γ .chain (.mapBy c f) (.mapBy c' f')
  | andThen {Γ : Scope} {c c' d d' : Expr} (hc : Expr.Varies loose Γ .chain c c')
      (hd : Expr.Varies loose Γ .chain d d') :
    Expr.Varies loose Γ .chain (.andThen c d) (.andThen c' d')
  | sequence {Γ : Scope} {cs cs' : Expr} (h : Expr.Varies loose Γ .chains cs cs') :
    Expr.Varies loose Γ .chain (.op (.chain .sequence) [cs]) (.op (.chain .sequence) [cs'])
  | declare {Γ : Scope} {c c' : Expr} {caps caps' : List Expr}
      (hc : Expr.Varies loose Γ .chain c c')
      (hcaps : exprsVary loose Γ (caps.map fun _ => .plain) caps caps') :
    Expr.Varies loose Γ .chain (.op (.chain .declare) (c :: caps))
      (.op (.chain .declare) (c' :: caps'))
  | modify {Γ : Scope} {k k' f f' : Expr} (hk : Expr.Varies loose Γ .plain k k')
      (hf : Expr.Varies loose Γ .mapping f f') :
    Expr.Varies loose Γ .chain (.modifyAt k f) (.modifyAt k' f')
  /- Handlers and runs. -/
  | library {Γ : Scope} {o : HandlerOp} {args args' : List Expr} (ho : o.ships = true)
      (h : exprsVary loose Γ (args.map fun _ => .plain) args args') :
    Expr.Varies loose Γ .shipped (.op (.handler o) args) (.op (.handler o) args')
  | store (Γ : Scope) :
    Expr.Varies loose Γ .served (.op (.handler .store) []) (.op (.handler .store) [])
  | storeOf {Γ : Scope} {entries : List (Expr × Expr)}
      (h : ∀ x ∈ (Expr.mapping entries).names, (Γ x).role.IsPlain) :
    Expr.Varies loose Γ .served (.op (.handler .store) [.mapping entries])
      (.op (.handler .store) [.mapping entries])
  | combine {Γ : Scope} {ρs : List Role} {args args' : List Expr} (hρs : ∀ ρ ∈ ρs, ρ ≤ .shipped)
      (h : exprsVary loose Γ ρs args args') :
    Expr.Varies loose Γ .shipped (.op (.handler .combine) args) (.op (.handler .combine) args')
  | combineServed {Γ : Scope} {ρs : List Role} {args args' : List Expr}
      (hρs : ∀ ρ ∈ ρs, ρ ≤ .shipped) (hserved : .served ∈ ρs)
      (h : exprsVary loose Γ ρs args args') :
    Expr.Varies loose Γ .served (.op (.handler .combine) args) (.op (.handler .combine) args')
  | check {Γ : Scope} {c c' h h' : Expr} (hc : Expr.Varies loose Γ .chain c c')
      (hh : Expr.Varies loose Γ .plain h h') :
    Expr.Varies loose Γ .plain (.op (.handler .check) [c, h]) (.op (.handler .check) [c', h'])
  | run {Γ : Scope} {c c' h h' : Expr} (hc : Expr.Varies loose Γ .chain c c')
      (hh : Expr.Varies loose Γ .served h h') :
    Expr.Varies loose Γ (.ofRun loose) (.runOn c h) (.runOn c' h')
  | outcomeValue {Γ : Scope} {e e' : Expr} (h : Expr.Varies loose Γ .outcome e e') :
    Expr.Varies loose Γ .plain (.op (.chain .value) [e]) (.op (.chain .value) [e'])
  /- The laws. -/
  | modify_get_put {Γ : Scope} {k f : Expr} {v n : String} (hk : Γ.Atom .plain k)
      (hf : Γ.Atom .mapping f) (hv : v ∉ k.names ∧ v ∉ f.names) (hn : n ∉ k.names) :
    Expr.Varies loose Γ .chain (.modifyAt k f) (.modifyInSteps k f v n)
  | put_put {Γ : Scope} {k v u c c' : Expr} (hk : Γ.Atom .plain k) (hv : Γ.Atom .plain v)
      (hu : Γ.Atom .plain u) (hc : Expr.Varies loose Γ .chain c c') :
    Expr.Varies loose Γ .chain (.andThen (.putAt k v) (.andThen (.putAt k u) c))
      (.andThen (.putAt k u) c')
  | put_get {Γ : Scope} {k v g : Expr} {x : String} (hk : Γ.Atom .plain k) (hv : Γ.Atom .plain v)
      (hg : Γ.Atom (.function [.plain] .chain) g) (hx : x ∉ v.names ∧ x ∉ g.names) :
    Expr.Varies loose Γ .chain (.andThen (.putAt k v) (.bindTo (.getAt k) g))
      (.bindTo (.putAt k v) (.lambda [x] (.callOn g v)))
  | put_get_built {Γ : Scope} {ρ : Role} {k v g : Expr} (hk : Γ.Atom .plain k) (hv : Γ.Atom ρ v)
      (hρ : ρ.IsPlain) (hg : Γ.Atom (.builder [ρ]) g) :
    Expr.Varies loose Γ .chain (.andThen (.putAt k v) (.bindTo (.getAt k) g))
      (.andThen (.putAt k v) (.callOn g v))
  | modify_modify {Γ : Scope} {k f g : Expr} {x : String} (hk : Γ.Atom .plain k)
      (hf : Γ.Atom .mapping f) (hg : Γ.Atom .mapping g) (hx : x ∉ f.names ∧ x ∉ g.names) :
    Expr.Varies loose Γ .chain (.andThen (.modifyAt k f) (.modifyAt k g))
      (.modifyAt k (.inTurn f g x))
  | put_comm {Γ : Scope} {k v j u : Expr} {a a' b b' : Value} (hloose : loose = true)
      (hk : Γ.Atom (.known a a') k) (hj : Γ.Atom (.known b b') j) (hv : Γ.Atom .plain v)
      (hu : Γ.Atom .plain u) (ha : a.keyFault? = none) (hb : b.keyFault? = none)
      (hab : a.same b = false) :
    Expr.Varies loose Γ .chain (.andThen (.putAt k v) (.putAt j u))
      (.andThen (.putAt j u) (.putAt k v))

/-- Expressions that vary, and the roles of what they come to. -/
inductive exprsVary (loose : Bool) : Scope → List Role → List Expr → List Expr → Prop
  | nil (Γ : Scope) : exprsVary loose Γ [] [] []
  | cons {Γ : Scope} {ρ : Role} {ρs : List Role} {e e' : Expr} {es es' : List Expr}
      (he : Expr.Varies loose Γ ρ e e') (hes : exprsVary loose Γ ρs es es') :
    exprsVary loose Γ (ρ :: ρs) (e :: es) (e' :: es')

/-- Two expressions that vary and surely have a value, and do nothing but make it. -/
inductive Surely (loose : Bool) : Scope → Role → Expr → Expr → Prop
  | atom {Γ : Scope} {ρ : Role} {e : Expr} (h : Γ.Atom ρ e) : Surely loose Γ ρ e e
  | weaken {Γ : Scope} {ρ σ : Role} {e e' : Expr} (h : Surely loose Γ ρ e e') (hρ : ρ ≤ σ) :
    Surely loose Γ σ e e'
  | arithmetic {Γ : Scope} {o : DataOp} {a b n : Int} {e e' d d' : Expr}
      (he : Surely loose Γ (.known (.int a) (.int a)) e e')
      (hd : Surely loose Γ (.known (.int b) (.int b)) d d')
      (h : ∀ call, o.apply call [.int a, .int b] = pure (.int n)) :
    Surely loose Γ (.known (.int n) (.int n)) (.op (.data o) [e, d]) (.op (.data o) [e', d'])
  | lambda {Γ : Scope} {ρ : Role} {params : List String} {body body' : Expr} (takes : List Role)
      (h : Expr.Varies loose (Γ.setAll params takes) ρ body body') :
    Surely loose Γ (.function takes ρ) (.lambda params body) (.lambda params body')
  | cond {Γ : Scope} {ρ : Role} {test test' yes yes' no no' : Expr}
      (htest : Surely loose Γ .plain test test') (hyes : Surely loose Γ ρ yes yes')
      (hno : Surely loose Γ ρ no no') : Surely loose Γ ρ (.cond test yes no) (.cond test' yes' no')
  | letIn {Γ : Scope} {ρ σ : Role} {x : String} {e e' body body' : Expr}
      (he : Surely loose Γ σ e e') (hbody : Surely loose (Γ.set x σ) ρ body body') :
    Surely loose Γ ρ (.letIn x e body) (.letIn x e' body')
  | perform {Γ : Scope} {o : ChainOp} {args args' : List Expr}
      (ho : o.asks args.length = true) (h : surelyAll loose Γ args args') :
    Surely loose Γ .waiting (.op (.chain o) args) (.op (.chain o) args')
  | modify {Γ : Scope} {k k' f f' : Expr} (hk : Surely loose Γ .plain k k')
      (hf : Surely loose Γ .mapping f f') :
    Surely loose Γ .waiting (.modifyAt k f) (.modifyAt k' f')
  | lift {Γ : Scope} {v v' : Expr} (hv : Surely loose Γ .plain v v') :
    Surely loose Γ .made (.lift v) (.lift v')
  | bind {Γ : Scope} {c c' f f' : Expr} (hc : Surely loose Γ .waiting c c')
      (hf : Surely loose Γ (.function [.plain] .chain) f f') :
    Surely loose Γ .waiting (.bindTo c f) (.bindTo c' f')
  | fmap {Γ : Scope} {c c' f f' : Expr} (hc : Surely loose Γ .waiting c c')
      (hf : Surely loose Γ (.function [.plain] .plain) f f') :
    Surely loose Γ .waiting (.mapBy c f) (.mapBy c' f')
  | andThen {Γ : Scope} {c c' d d' : Expr} (hc : Surely loose Γ .waiting c c')
      (hd : Surely loose Γ .made d d') :
    Surely loose Γ .waiting (.andThen c d) (.andThen c' d')

/-- Expressions that vary and surely have values, which are counterparts. -/
inductive surelyAll (loose : Bool) : Scope → List Expr → List Expr → Prop
  | nil (Γ : Scope) : surelyAll loose Γ [] []
  | cons {Γ : Scope} {e e' : Expr} {es es' : List Expr} (he : Surely loose Γ .plain e e')
      (hes : surelyAll loose Γ es es') : surelyAll loose Γ (e :: es) (e' :: es')

/-- Two statements that vary in the scope of their routine, and the role of what they yield. -/
inductive Stmt.Varies (loose : Bool) : Scope → Role → Stmt → Stmt → Prop
  | yield {Γ : Scope} {ρ : Role} {target : Option String} {e e' : Expr}
      (he : Expr.Varies loose Γ ρ e e') (htarget : ∀ x ∈ target, .plain ≤ (Γ x).role) :
    Stmt.Varies loose Γ ρ (.yield target e) (.yield target e')
  | assign {Γ : Scope} {ρ : Role} {x : String} {e e' : Expr}
      (he : Expr.Varies loose Γ (Γ x).role e e') :
    Stmt.Varies loose Γ ρ (.assign x e) (.assign x e')
  | eval {Γ : Scope} {ρ σ : Role} {e e' : Expr} (he : Expr.Varies loose Γ σ e e') :
    Stmt.Varies loose Γ ρ (.eval e) (.eval e')
  | exit {Γ : Scope} {ρ : Role} {e e' : Expr} (he : Expr.Varies loose Γ .plain e e') :
    Stmt.Varies loose Γ ρ (.exit e) (.exit e')
  | cond {Γ : Scope} {ρ : Role} {test test' : Expr} {yes yes' no no' : List Stmt}
      (htest : Expr.Varies loose Γ .plain test test') (hyes : stmtsVary loose Γ ρ yes yes')
      (hno : stmtsVary loose Γ ρ no no') :
    Stmt.Varies loose Γ ρ (.cond test yes no) (.cond test' yes' no')
  | each {Γ : Scope} {ρ σ τ : Role} {x : String} {items items' : Expr} {body body' : List Stmt}
      (hσ : σ.Items τ) (hitems : Expr.Varies loose Γ σ items items') (hx : τ ≤ (Γ x).role)
      (hbody : stmtsVary loose Γ ρ body body') :
    Stmt.Varies loose Γ ρ (.each x items body) (.each x items' body')

/-- Statements that vary. -/
inductive stmtsVary (loose : Bool) : Scope → Role → List Stmt → List Stmt → Prop
  | nil (Γ : Scope) (ρ : Role) : stmtsVary loose Γ ρ [] []
  | cons {Γ : Scope} {ρ : Role} {s s' : Stmt} {ss ss' : List Stmt}
      (hs : Stmt.Varies loose Γ ρ s s') (hss : stmtsVary loose Γ ρ ss ss') :
    stmtsVary loose Γ ρ (s :: ss) (s' :: ss')

/-- Two bodies of programs that vary. -/
inductive Routine.Varies (loose : Bool) : Scope → Routine → Routine → Prop
  | resumable {Γ : Scope} {body body' : List Stmt} (h : stmtsVary loose Γ .chain body body') :
    Routine.Varies loose Γ (.resumable body) (.resumable body')
  | plain {Γ : Scope} {body body' : Expr} (h : Expr.Varies loose Γ .chain body body') :
    Routine.Varies loose Γ (.plain body) (.plain body')

end

end EffectHandlers
