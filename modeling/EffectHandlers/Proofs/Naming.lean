/-
EffectHandlers/Proofs/Naming.lean

Values with names in place of numbers.

Identities and the numbers of calls are drawn from counters, so two
computations that do the same in worlds with other counters come to values
with other numbers in them.  A naming gives names to the identities and the
calls of a world, one to one for identities.  `Value.Named N v` says that
every number in a value has a name, and `Value.along N v` is the value with
the names.  Two values of two worlds stand for each other if they are the
same under the names of each world.

A function holds all bindings that there were when it was made.  Those that
its code does not mention make no difference, so `Value.along` leaves them
out.

Main statement: a naming that is extended gives the same names to the values
that were named before (`NamedAs.mono`).
-/
import EffectHandlers.Proofs.Fitting
import Mathlib.Data.List.Basic

namespace EffectHandlers

/-! ### The names that code mentions -/

mutual

/-- The variables that an expression mentions. -/
def Expr.names : Expr → List String
  | .literal _ => []
  | .var x => [x]
  | .lambda _ body | .fixpoint _ _ body => body.names
  | .cond test yes no => test.names ++ yes.names ++ no.names
  | .letIn _ bound body => bound.names ++ body.names
  | .block es => exprsNames es
  | .mapping entries => entriesNames entries
  | .program requires _ body => exprsNames requires ++ body.names
  | .custom spec => spec.names
  | .op _ args => exprsNames args
termination_by structural e => e

/-- The variables that some expressions mention. -/
def exprsNames : List Expr → List String
  | [] => []
  | e :: es => e.names ++ exprsNames es
termination_by structural es => es

/-- The variables that the entries of a mapping mention. -/
def entriesNames : List (Expr × Expr) → List String
  | [] => []
  | (k, v) :: es => k.names ++ v.names ++ entriesNames es
termination_by structural es => es

/-- The variables that an optional expression mentions. -/
def optionNames : Option Expr → List String
  | none => []
  | some e => e.names
termination_by structural e => e

/-- The variables that a statement mentions. -/
def Stmt.names : Stmt → List String
  | .yield _ e | .assign _ e | .eval e | .exit e => e.names
  | .cond test yes no => test.names ++ stmtsNames yes ++ stmtsNames no
  | .each _ items body => items.names ++ stmtsNames body
termination_by structural s => s

/-- The variables that some statements mention. -/
def stmtsNames : List Stmt → List String
  | [] => []
  | s :: ss => s.names ++ stmtsNames ss
termination_by structural ss => ss

/-- The variables that the body of a program mentions. -/
def Routine.names : Routine → List String
  | .resumable body => stmtsNames body
  | .plain body => body.names
termination_by structural r => r

/-- The variables that the description of a handler mentions. -/
def HandlerSpec.names : HandlerSpec → List String
  | .mk _ _ _ _ start step offer finish =>
    optionNames start ++ optionNames step ++ optionNames offer ++ optionNames finish
termination_by structural spec => spec

end

/-! ### Namings -/

/-- Names for the identities and the calls of a world.  No two identities have one name. -/
structure Naming where
  ids : Nat → Option Nat
  calls : Nat → Option Nat
  ids_inj {m n k : Nat} : ids m = some k → ids n = some k → m = n

namespace Naming

/-- The name of an identity. -/
def idOf (N : Naming) (n : Nat) : Nat := (N.ids n).getD n

/-- The name of a call. -/
def callOf (N : Naming) (n : Nat) : Nat := (N.calls n).getD n

/-- Whether an identity has a name. -/
def HasId (N : Naming) (n : Nat) : Prop := ∃ k, N.ids n = some k

/-- Whether a call has a name. -/
def HasCall (N : Naming) (n : Nat) : Prop := ∃ k, N.calls n = some k

/-- One naming extends another one: whatever had a name still has it. -/
protected structure Le (N M : Naming) : Prop where
  ids (n k : Nat) : N.ids n = some k → M.ids n = some k
  calls (n k : Nat) : N.calls n = some k → M.calls n = some k

instance : LE Naming := ⟨Naming.Le⟩

variable {N M : Naming}

theorem idOf_eq {n k : Nat} (h : N.ids n = some k) : N.idOf n = k := by
  rw [idOf, h]
  rfl

theorem callOf_eq {n k : Nat} (h : N.calls n = some k) : N.callOf n = k := by
  rw [callOf, h]
  rfl

theorem HasId.mono {n : Nat} (h : N.HasId n) (hNM : N ≤ M) : M.HasId n ∧ M.idOf n = N.idOf n := by
  obtain ⟨k, hk⟩ := h
  have hM : M.ids n = some k := hNM.ids n k hk
  exact ⟨⟨k, hM⟩, (idOf_eq hM).trans (idOf_eq hk).symm⟩

theorem HasCall.mono {n : Nat} (h : N.HasCall n) (hNM : N ≤ M) :
    M.HasCall n ∧ M.callOf n = N.callOf n := by
  obtain ⟨k, hk⟩ := h
  have hM : M.calls n = some k := hNM.calls n k hk
  exact ⟨⟨k, hM⟩, (callOf_eq hM).trans (callOf_eq hk).symm⟩

/-- Identities with names are told apart by them. -/
theorem idOf_beq {m n : Nat} (hm : N.HasId m) (hn : N.HasId n) :
    (N.idOf m == N.idOf n) = (m == n) := by
  obtain ⟨j, hj⟩ := hm
  obtain ⟨k, hk⟩ := hn
  rw [idOf_eq hj, idOf_eq hk, Bool.eq_iff_iff, beq_iff_eq, beq_iff_eq]
  constructor
  · rintro rfl
    exact N.ids_inj hj hk
  · rintro rfl
    exact Option.some.inj (hj.symm.trans hk)

end Naming

/-! ### Values with names -/

mutual

/-- A value with names. -/
@[simp] def Value.along (N : Naming) : Value → Value
  | .null => .null
  | .bool b => .bool b
  | .int n => .int n
  | .text s => .text s
  | .list xs => .list (valuesAlong N xs)
  | .tuple xs => .tuple (valuesAlong N xs)
  | .dict es => .dict (entriesAlong N es)
  | .frozen es => .frozen (entriesAlong N es)
  | .capability c => .capability c
  | .capabilities s => .capabilities s
  | .effect e => .effect (e.along N)
  | .chain c => .chain (c.along N)
  | .function f => .function (f.along N)
  | .handler h => .handler (h.along N)
  | .handled s n => .handled (s.along N) (n.along N)
  | .declined => .declined
  | .result v o => .result (v.along N) (o.along N)
  | .cell a => .cell a
  | .refusal id r => .refusal (N.idOf id) (r.along N)
termination_by structural v => v

/-- Values with names. -/
def valuesAlong (N : Naming) : List Value → List Value
  | [] => []
  | v :: vs => v.along N :: valuesAlong N vs
termination_by structural vs => vs

/-- Entries with names. -/
def entriesAlong (N : Naming) : List (Value × Value) → List (Value × Value)
  | [] => []
  | (k, v) :: es => (k.along N, v.along N) :: entriesAlong N es
termination_by structural es => es

/-- What a variable is bound to, with names. -/
def bindingAlong (N : Naming) : List (String × Value) → String → Option Value
  | [], _ => none
  | (n, v) :: bs, x => if n = x then some (v.along N) else bindingAlong N bs x
termination_by structural bs => bs

/-- An optional value with names. -/
def optionAlong (N : Naming) : Option Value → Option Value
  | none => none
  | some v => some (v.along N)
termination_by structural v => v

/-- A request with names. -/
@[simp] def Request.along (N : Naming) : Request → Request
  | .log m => .log (m.along N)
  | .loudLog m v => .loudLog (m.along N) (v.along N)
  | .writeLine l => .writeLine (l.along N)
  | .readLine => .readLine
  | .beep => .beep
  | .get k => .get (k.along N)
  | .put k v => .put (k.along N) (v.along N)
  | .modify k f => .modify (k.along N) (f.along N)
  | .poke k => .poke (k.along N)
  | .tick n => .tick (n.along N)
  | .custom n c v => .custom n c (v.along N)
termination_by structural r => r

/-- An effect with names. -/
@[simp] def Effect.along (N : Naming) : Effect → Effect
  | ⟨r, ss⟩ => ⟨r.along N, stagesAlong N ss⟩
termination_by structural e => e

/-- A chain with names. -/
@[simp] def Chain.along (N : Naming) : Chain → Chain
  | .done v r => .done (v.along N) r
  | .suspended e r => .suspended (e.along N) r
termination_by structural c => c

/-- A stage with names. -/
@[simp] def Stage.along (N : Naming) : Stage → Stage
  | .call f => .call (f.along N)
  | .lift => .lift
  | .bind b => .bind (b.along N)
termination_by structural s => s

/-- Stages with names. -/
def stagesAlong (N : Naming) : List Stage → List Stage
  | [] => []
  | s :: ss => s.along N :: stagesAlong N ss
termination_by structural ss => ss

/-- A binder with names. -/
@[simp] def Binder.along (N : Naming) : Binder → Binder
  | .call f => .call (f.along N)
  | .map f => .map (f.along N)
  | .always c => .always (c.along N)
  | .gather c => .gather (c.along N)
  | .append xs => .append (valuesAlong N xs)
termination_by structural b => b

/-- A function with names, and with the bindings only that its code mentions. -/
@[simp] def Callable.along (N : Naming) : Callable → Callable
  | .closure id params body env =>
    .closure (N.idOf id) params body
      (body.names.filterMap fun x => (bindingAlong N env x).map (x, ·))
  | .fixpoint id name params body env =>
    .fixpoint (N.idOf id) name params body
      (body.names.filterMap fun x => (bindingAlong N env x).map (x, ·))
  | .program id requires params body env =>
    .program (N.idOf id) requires params body
      (body.names.filterMap fun x => (bindingAlong N env x).map (x, ·))
  | .resumption id h => .resumption (N.callOf id) h
termination_by structural f => f

/-- A handler with names. -/
@[simp] def Handler.along (N : Naming) : Handler → Handler
  | .collector id => .collector (N.idOf id)
  | .emitter id level component => .emitter (N.idOf id) (level.along N) (component.along N)
  | .transcript id lines => .transcript (N.idOf id) (valuesAlong N lines)
  | .stream id source => .stream (N.idOf id) source
  | .store id initial => .store (N.idOf id) (entriesAlong N initial)
  | .counter id => .counter (N.idOf id)
  | .recorder id journal inner => .recorder (N.idOf id) journal (inner.along N)
  | .pair id first second => .pair (N.idOf id) (first.along N) (second.along N)
  | .custom id m => .custom (N.idOf id) (m.along N)
termination_by structural h => h

/-- The methods of a custom handler with names. -/
@[simp] def CustomMethods.along (N : Naming) : CustomMethods → CustomMethods
  | ⟨name, base, kind, capabilities, start, step, offer, finish⟩ =>
    ⟨name, base, kind, capabilities, optionAlong N start, optionAlong N step, optionAlong N offer,
      optionAlong N finish⟩
termination_by structural m => m

/-- A refusal with names. -/
@[simp] def Refusal.along (N : Naming) : Refusal → Refusal
  | .unhandledEffect e => .unhandledEffect (e.along N)
  | .missingCapability s => .missingCapability s
  | .capabilityConflict s => .capabilityConflict s
  | .consoleInputExhausted n => .consoleInputExhausted n
termination_by structural r => r

end

/-! ### Values that have names for everything -/

/-- Whether a function was made by an expression, and is not the library's own. -/
def Callable.IsMade : Callable → Prop
  | .closure _ _ _ _ | .fixpoint _ _ _ _ _ | .program _ _ _ _ _ => True
  | .resumption _ _ => False

mutual

/-- Everything in a value has a name. -/
@[simp] def Value.Named (N : Naming) : Value → Prop
  | .null | .bool _ | .int _ | .text _ => True
  | .list xs | .tuple xs => valuesNamed N xs
  | .dict es | .frozen es => entriesNamed N es
  | .capability _ | .capabilities _ => True
  | .effect e => e.Named N
  | .chain c => c.Named N
  | .function f => f.IsMade ∧ f.Named N
  | .handler h => h.Named N
  | .handled s n => s.Named N ∧ n.Named N
  | .declined => True
  | .result v o => v.Named N ∧ o.Named N
  | .cell _ => True
  | .refusal id r => N.HasId id ∧ r.Named N
termination_by structural v => v

/-- Everything in some values has a name. -/
def valuesNamed (N : Naming) : List Value → Prop
  | [] => True
  | v :: vs => v.Named N ∧ valuesNamed N vs
termination_by structural vs => vs

/-- Everything in the entries of a mapping has a name. -/
def entriesNamed (N : Naming) : List (Value × Value) → Prop
  | [] => True
  | (k, v) :: es => (k.Named N ∧ v.Named N) ∧ entriesNamed N es
termination_by structural es => es

/-- Everything in what a variable is bound to has a name. -/
def bindingNamed (N : Naming) : List (String × Value) → String → Prop
  | [], _ => True
  | (n, v) :: bs, x => if n = x then v.Named N else bindingNamed N bs x
termination_by structural bs => bs

/-- Everything in an optional value has a name. -/
def optionNamed (N : Naming) : Option Value → Prop
  | none => True
  | some v => v.Named N
termination_by structural v => v

/-- Everything in a request has a name. -/
@[simp] def Request.Named (N : Naming) : Request → Prop
  | .log m => m.Named N
  | .loudLog m v => m.Named N ∧ v.Named N
  | .writeLine l => l.Named N
  | .readLine | .beep => True
  | .get k => k.Named N
  | .put k v => k.Named N ∧ v.Named N
  | .modify k f => k.Named N ∧ f.Named N
  | .poke k => k.Named N
  | .tick n => n.Named N
  | .custom _ _ v => v.Named N
termination_by structural r => r

/-- Everything in an effect has a name. -/
@[simp] def Effect.Named (N : Naming) : Effect → Prop
  | ⟨r, ss⟩ => r.Named N ∧ stagesNamed N ss
termination_by structural e => e

/-- Everything in a chain has a name. -/
@[simp] def Chain.Named (N : Naming) : Chain → Prop
  | .done v _ => v.Named N
  | .suspended e _ => e.Named N
termination_by structural c => c

/-- Everything in a stage has a name. -/
@[simp] def Stage.Named (N : Naming) : Stage → Prop
  | .call f => f.Named N
  | .lift => True
  | .bind b => b.Named N
termination_by structural s => s

/-- Everything in some stages has a name. -/
def stagesNamed (N : Naming) : List Stage → Prop
  | [] => True
  | s :: ss => s.Named N ∧ stagesNamed N ss
termination_by structural ss => ss

/-- Everything in a binder has a name. -/
@[simp] def Binder.Named (N : Naming) : Binder → Prop
  | .call f | .map f => f.Named N
  | .always c | .gather c => c.Named N
  | .append xs => valuesNamed N xs
termination_by structural b => b

/-- Everything in a function has a name, but for the bindings that its code does not mention. -/
@[simp] def Callable.Named (N : Naming) : Callable → Prop
  | .closure id _ body env => N.HasId id ∧ ∀ x ∈ body.names, bindingNamed N env x
  | .fixpoint id _ _ body env => N.HasId id ∧ ∀ x ∈ body.names, bindingNamed N env x
  | .program id _ _ body env => N.HasId id ∧ ∀ x ∈ body.names, bindingNamed N env x
  | .resumption id _ => N.HasCall id
termination_by structural f => f

/-- Everything in a handler has a name. -/
@[simp] def Handler.Named (N : Naming) : Handler → Prop
  | .collector id | .counter id | .stream id _ => N.HasId id
  | .emitter id level component => N.HasId id ∧ level.Named N ∧ component.Named N
  | .transcript id lines => N.HasId id ∧ valuesNamed N lines
  | .store id initial => N.HasId id ∧ entriesNamed N initial
  | .recorder id _ inner => N.HasId id ∧ inner.Named N
  | .pair id first second => N.HasId id ∧ first.Named N ∧ second.Named N
  | .custom id m => N.HasId id ∧ m.Named N
termination_by structural h => h

/-- Everything in the methods of a custom handler has a name. -/
@[simp] def CustomMethods.Named (N : Naming) : CustomMethods → Prop
  | ⟨_, _, _, _, start, step, offer, finish⟩ =>
    optionNamed N start ∧ optionNamed N step ∧ optionNamed N offer ∧ optionNamed N finish
termination_by structural m => m

/-- Everything in a refusal has a name. -/
@[simp] def Refusal.Named (N : Naming) : Refusal → Prop
  | .unhandledEffect e => e.Named N
  | .missingCapability _ | .capabilityConflict _ | .consoleInputExhausted _ => True
termination_by structural r => r

end

/-! ### Extending a naming -/

section

variable {N M : Naming}

mutual

theorem Value.named_mono (hNM : N ≤ M) : ∀ v : Value, v.Named N → v.Named M ∧ v.along M = v.along N
  | .null, _ | .bool _, _ | .int _, _ | .text _, _ | .capability _, _ | .capabilities _, _
  | .declined, _ | .cell _, _ => ⟨trivial, rfl⟩
  | .list xs, h => (valuesNamed_mono hNM xs h).imp_right (congrArg Value.list)
  | .tuple xs, h => (valuesNamed_mono hNM xs h).imp_right (congrArg Value.tuple)
  | .dict es, h => (entriesNamed_mono hNM es h).imp_right (congrArg Value.dict)
  | .frozen es, h => (entriesNamed_mono hNM es h).imp_right (congrArg Value.frozen)
  | .effect e, h => (Effect.named_mono hNM e h).imp_right (congrArg Value.effect)
  | .chain c, h => (Chain.named_mono hNM c h).imp_right (congrArg Value.chain)
  | .function f, h =>
    have hf := Callable.named_mono hNM f h.2
    ⟨⟨h.1, hf.1⟩, congrArg Value.function hf.2⟩
  | .handler a, h => (Handler.named_mono hNM a h).imp_right (congrArg Value.handler)
  | .handled s n, h =>
    have hs := Value.named_mono hNM s h.1
    have hn := Value.named_mono hNM n h.2
    ⟨⟨hs.1, hn.1⟩, congrArg₂ Value.handled hs.2 hn.2⟩
  | .result v o, h =>
    have hv := Value.named_mono hNM v h.1
    have ho := Value.named_mono hNM o h.2
    ⟨⟨hv.1, ho.1⟩, congrArg₂ Value.result hv.2 ho.2⟩
  | .refusal _ r, h =>
    have hid := h.1.mono hNM
    have hr := Refusal.named_mono hNM r h.2
    ⟨⟨hid.1, hr.1⟩, congrArg₂ Value.refusal hid.2 hr.2⟩
termination_by structural v => v

theorem valuesNamed_mono (hNM : N ≤ M) : ∀ vs : List Value, valuesNamed N vs →
    valuesNamed M vs ∧ valuesAlong M vs = valuesAlong N vs
  | [], _ => ⟨trivial, rfl⟩
  | v :: vs, h =>
    have hv := Value.named_mono hNM v h.1
    have hvs := valuesNamed_mono hNM vs h.2
    ⟨⟨hv.1, hvs.1⟩, congrArg₂ List.cons hv.2 hvs.2⟩
termination_by structural vs => vs

theorem entriesNamed_mono (hNM : N ≤ M) : ∀ es : List (Value × Value), entriesNamed N es →
    entriesNamed M es ∧ entriesAlong M es = entriesAlong N es
  | [], _ => ⟨trivial, rfl⟩
  | (k, v) :: es, h =>
    have hk := Value.named_mono hNM k h.1.1
    have hv := Value.named_mono hNM v h.1.2
    have hes := entriesNamed_mono hNM es h.2
    ⟨⟨⟨hk.1, hv.1⟩, hes.1⟩, congrArg₂ List.cons (congrArg₂ Prod.mk hk.2 hv.2) hes.2⟩
termination_by structural es => es

theorem bindingNamed_mono (hNM : N ≤ M) : ∀ (bs : List (String × Value)) (x : String),
    bindingNamed N bs x → bindingNamed M bs x ∧ bindingAlong M bs x = bindingAlong N bs x
  | [], _, _ => ⟨trivial, rfl⟩
  | (n, v) :: bs, x, h => by
    by_cases hn : n = x
    · simp only [bindingNamed, bindingAlong, if_pos hn] at h ⊢
      exact (Value.named_mono hNM v h).imp_right (congrArg some)
    · simp only [bindingNamed, bindingAlong, if_neg hn] at h ⊢
      exact bindingNamed_mono hNM bs x h
termination_by structural bs => bs

theorem optionNamed_mono (hNM : N ≤ M) : ∀ v : Option Value, optionNamed N v →
    optionNamed M v ∧ optionAlong M v = optionAlong N v
  | none, _ => ⟨trivial, rfl⟩
  | some v, h => (Value.named_mono hNM v h).imp_right (congrArg some)
termination_by structural v => v

theorem Request.named_mono (hNM : N ≤ M) : ∀ r : Request,
    r.Named N → r.Named M ∧ r.along M = r.along N
  | .readLine, _ | .beep, _ => ⟨trivial, rfl⟩
  | .log m, h => (Value.named_mono hNM m h).imp_right (congrArg Request.log)
  | .loudLog m v, h =>
    have hm := Value.named_mono hNM m h.1
    have hv := Value.named_mono hNM v h.2
    ⟨⟨hm.1, hv.1⟩, congrArg₂ Request.loudLog hm.2 hv.2⟩
  | .writeLine l, h => (Value.named_mono hNM l h).imp_right (congrArg Request.writeLine)
  | .get k, h => (Value.named_mono hNM k h).imp_right (congrArg Request.get)
  | .put k v, h =>
    have hk := Value.named_mono hNM k h.1
    have hv := Value.named_mono hNM v h.2
    ⟨⟨hk.1, hv.1⟩, congrArg₂ Request.put hk.2 hv.2⟩
  | .modify k f, h =>
    have hk := Value.named_mono hNM k h.1
    have hf := Value.named_mono hNM f h.2
    ⟨⟨hk.1, hf.1⟩, congrArg₂ Request.modify hk.2 hf.2⟩
  | .poke k, h => (Value.named_mono hNM k h).imp_right (congrArg Request.poke)
  | .tick n, h => (Value.named_mono hNM n h).imp_right (congrArg Request.tick)
  | .custom n c v, h => (Value.named_mono hNM v h).imp_right (congrArg (Request.custom n c))
termination_by structural r => r

theorem Effect.named_mono (hNM : N ≤ M) : ∀ e : Effect,
    e.Named N → e.Named M ∧ e.along M = e.along N
  | ⟨r, ss⟩, h =>
    have hr := Request.named_mono hNM r h.1
    have hss := stagesNamed_mono hNM ss h.2
    ⟨⟨hr.1, hss.1⟩, congrArg₂ Effect.mk hr.2 hss.2⟩
termination_by structural e => e

theorem Chain.named_mono (hNM : N ≤ M) : ∀ c : Chain, c.Named N → c.Named M ∧ c.along M = c.along N
  | .done v r, h => (Value.named_mono hNM v h).imp_right (congrArg (Chain.done · r))
  | .suspended e r, h => (Effect.named_mono hNM e h).imp_right (congrArg (Chain.suspended · r))
termination_by structural c => c

theorem Stage.named_mono (hNM : N ≤ M) : ∀ s : Stage, s.Named N → s.Named M ∧ s.along M = s.along N
  | .call f, h => (Callable.named_mono hNM f h).imp_right (congrArg Stage.call)
  | .lift, _ => ⟨trivial, rfl⟩
  | .bind b, h => (Binder.named_mono hNM b h).imp_right (congrArg Stage.bind)
termination_by structural s => s

theorem stagesNamed_mono (hNM : N ≤ M) : ∀ ss : List Stage, stagesNamed N ss →
    stagesNamed M ss ∧ stagesAlong M ss = stagesAlong N ss
  | [], _ => ⟨trivial, rfl⟩
  | s :: ss, h =>
    have hs := Stage.named_mono hNM s h.1
    have hss := stagesNamed_mono hNM ss h.2
    ⟨⟨hs.1, hss.1⟩, congrArg₂ List.cons hs.2 hss.2⟩
termination_by structural ss => ss

theorem Binder.named_mono (hNM : N ≤ M) : ∀ b : Binder,
    b.Named N → b.Named M ∧ b.along M = b.along N
  | .call f, h => (Callable.named_mono hNM f h).imp_right (congrArg Binder.call)
  | .map f, h => (Callable.named_mono hNM f h).imp_right (congrArg Binder.map)
  | .always c, h => (Chain.named_mono hNM c h).imp_right (congrArg Binder.always)
  | .gather c, h => (Chain.named_mono hNM c h).imp_right (congrArg Binder.gather)
  | .append xs, h => (valuesNamed_mono hNM xs h).imp_right (congrArg Binder.append)
termination_by structural b => b

theorem Callable.named_mono (hNM : N ≤ M) : ∀ f : Callable,
    f.Named N → f.Named M ∧ f.along M = f.along N
  | .closure _ params body env, h =>
    have hid := h.1.mono hNM
    have henv := fun x hx => bindingNamed_mono hNM env x (h.2 x hx)
    ⟨⟨hid.1, fun x hx => (henv x hx).1⟩,
      congrArg₂ (Callable.closure · params body ·) hid.2
        (List.filterMap_congr fun x hx => by rw [(henv x hx).2])⟩
  | .fixpoint _ name params body env, h =>
    have hid := h.1.mono hNM
    have henv := fun x hx => bindingNamed_mono hNM env x (h.2 x hx)
    ⟨⟨hid.1, fun x hx => (henv x hx).1⟩,
      congrArg₂ (Callable.fixpoint · name params body ·) hid.2
        (List.filterMap_congr fun x hx => by rw [(henv x hx).2])⟩
  | .program _ requires params body env, h =>
    have hid := h.1.mono hNM
    have henv := fun x hx => bindingNamed_mono hNM env x (h.2 x hx)
    ⟨⟨hid.1, fun x hx => (henv x hx).1⟩,
      congrArg₂ (Callable.program · requires params body ·) hid.2
        (List.filterMap_congr fun x hx => by rw [(henv x hx).2])⟩
  | .resumption _ a, h =>
    have hid := Naming.HasCall.mono h hNM
    ⟨hid.1, congrArg (Callable.resumption · a) hid.2⟩
termination_by structural f => f

theorem Handler.named_mono (hNM : N ≤ M) : ∀ a : Handler,
    a.Named N → a.Named M ∧ a.along M = a.along N
  | .collector _, h => (Naming.HasId.mono h hNM).imp_right (congrArg Handler.collector)
  | .counter _, h => (Naming.HasId.mono h hNM).imp_right (congrArg Handler.counter)
  | .stream _ source, h =>
    (Naming.HasId.mono h hNM).imp_right (congrArg (Handler.stream · source))
  | .emitter _ level component, h =>
    have hid := h.1.mono hNM
    have hl := Value.named_mono hNM level h.2.1
    have hc := Value.named_mono hNM component h.2.2
    ⟨⟨hid.1, hl.1, hc.1⟩, by simp only [Handler.along, hid.2, hl.2, hc.2]⟩
  | .transcript _ lines, h =>
    have hid := h.1.mono hNM
    have hl := valuesNamed_mono hNM lines h.2
    ⟨⟨hid.1, hl.1⟩, congrArg₂ Handler.transcript hid.2 hl.2⟩
  | .store _ initial, h =>
    have hid := h.1.mono hNM
    have hi := entriesNamed_mono hNM initial h.2
    ⟨⟨hid.1, hi.1⟩, congrArg₂ Handler.store hid.2 hi.2⟩
  | .recorder _ journal inner, h =>
    have hid := h.1.mono hNM
    have hi := Handler.named_mono hNM inner h.2
    ⟨⟨hid.1, hi.1⟩, congrArg₂ (Handler.recorder · journal ·) hid.2 hi.2⟩
  | .pair _ first second, h =>
    have hid := h.1.mono hNM
    have hf := Handler.named_mono hNM first h.2.1
    have hs := Handler.named_mono hNM second h.2.2
    ⟨⟨hid.1, hf.1, hs.1⟩, by simp only [Handler.along, hid.2, hf.2, hs.2]⟩
  | .custom _ m, h =>
    have hid := h.1.mono hNM
    have hm := CustomMethods.named_mono hNM m h.2
    ⟨⟨hid.1, hm.1⟩, congrArg₂ Handler.custom hid.2 hm.2⟩
termination_by structural a => a

theorem CustomMethods.named_mono (hNM : N ≤ M) : ∀ m : CustomMethods, m.Named N →
    m.Named M ∧ m.along M = m.along N
  | ⟨_, _, _, _, start, step, offer, finish⟩, h =>
    have hstart := optionNamed_mono hNM start h.1
    have hstep := optionNamed_mono hNM step h.2.1
    have hoffer := optionNamed_mono hNM offer h.2.2.1
    have hfinish := optionNamed_mono hNM finish h.2.2.2
    ⟨⟨hstart.1, hstep.1, hoffer.1, hfinish.1⟩,
      by simp only [CustomMethods.along, hstart.2, hstep.2, hoffer.2, hfinish.2]⟩
termination_by structural m => m

theorem Refusal.named_mono (hNM : N ≤ M) : ∀ r : Refusal,
    r.Named N → r.Named M ∧ r.along M = r.along N
  | .unhandledEffect e, h =>
    (Effect.named_mono hNM e h).imp_right (congrArg Refusal.unhandledEffect)
  | .missingCapability _, _ | .capabilityConflict _, _ | .consoleInputExhausted _, _ =>
    ⟨trivial, rfl⟩
termination_by structural r => r

end

end

/-! ### Data with names -/

/-- Data that can hold identities and calls. -/
class Along (α : Type) where
  named : Naming → α → Prop
  along : Naming → α → α
  mono {N M : Naming} (h : N ≤ M) (a : α) : named N a → named M a ∧ along M a = along N a

/-- The second one is the first one, with names. -/
def NamedAs {α : Type} [Along α] (N : Naming) (a a' : α) : Prop :=
  Along.named N a ∧ Along.along N a = a'

theorem NamedAs.mono {α : Type} [Along α] {N M : Naming} {a a' : α} (h : NamedAs N a a')
    (hNM : N ≤ M) : NamedAs M a a' := by
  obtain ⟨hnamed, rfl⟩ := h
  exact Along.mono hNM a hnamed

/-- Data without identities and calls. -/
@[reducible] def Along.plain (α : Type) : Along α where
  named _ _ := True
  along _ a := a
  mono _ _ _ := ⟨trivial, rfl⟩

instance : Along Unit := .plain Unit
instance : Along Bool := .plain Bool
instance : Along Nat := .plain Nat
instance : Along Char := .plain Char
instance : Along String := .plain String
instance : Along CapabilitySet := .plain CapabilitySet

instance : Along Value := ⟨Value.Named, Value.along, fun h v => v.named_mono h⟩
instance : Along Request := ⟨Request.Named, Request.along, fun h r => r.named_mono h⟩
instance : Along Effect := ⟨Effect.Named, Effect.along, fun h e => e.named_mono h⟩
instance : Along Chain := ⟨Chain.Named, Chain.along, fun h c => c.named_mono h⟩
instance : Along Stage := ⟨Stage.Named, Stage.along, fun h s => s.named_mono h⟩
instance : Along Binder := ⟨Binder.Named, Binder.along, fun h b => b.named_mono h⟩
instance : Along Callable := ⟨Callable.Named, Callable.along, fun h f => f.named_mono h⟩
instance : Along Handler := ⟨Handler.Named, Handler.along, fun h a => a.named_mono h⟩
instance : Along Refusal := ⟨Refusal.Named, Refusal.along, fun h r => r.named_mono h⟩

instance {α β : Type} [Along α] [Along β] : Along (α × β) where
  named N p := Along.named N p.1 ∧ Along.named N p.2
  along N p := (Along.along N p.1, Along.along N p.2)
  mono h p hp :=
    have h₁ := Along.mono h p.1 hp.1
    have h₂ := Along.mono h p.2 hp.2
    ⟨⟨h₁.1, h₂.1⟩, congrArg₂ Prod.mk h₁.2 h₂.2⟩

instance {α : Type} [Along α] : Along (List α) where
  named N xs := ∀ x ∈ xs, Along.named N x
  along N xs := xs.map (Along.along N)
  mono h _ hxs :=
    ⟨fun x hx => (Along.mono h x (hxs x hx)).1,
      List.map_congr_left fun x hx => (Along.mono h x (hxs x hx)).2⟩

instance {α : Type} [Along α] : Along (Option α) where
  named N x := ∀ a ∈ x, Along.named N a
  along N x := x.map (Along.along N)
  mono h x hx := by
    cases x with
    | none => exact ⟨nofun, rfl⟩
    | some a =>
      have ha := Along.mono h a (hx a rfl)
      exact ⟨fun _ hb => Option.some.inj hb ▸ ha.1, congrArg some ha.2⟩

end EffectHandlers
