/-
EffectHandlers/Proofs/Link/Shapes.lean

Counterparts have the same shape.

A value with names has the shape of the value, with names inside.  So two
counterparts have the same shape, with counterparts inside.  Both is one
statement for each type of data (`Value.Shape` and its likes), about a
relation between the parts and one between identities.

Main statements: what is known of the parts of counterparts
(`Counterpart.shape` of each type), and that data with counterparts inside
are counterparts.
-/
import EffectHandlers.Proofs.Link

namespace EffectHandlers

/-! ### Shapes -/

section

variable (P : ∀ {α : Type} [Along α], α → α → Prop) (I C : Nat → Nat → Prop)

/-- Two values of one shape. -/
inductive Value.Shape : Value → Value → Prop
  | null : Shape .null .null
  | bool (b : Bool) : Shape (.bool b) (.bool b)
  | int (n : Int) : Shape (.int n) (.int n)
  | text (s : String) : Shape (.text s) (.text s)
  | list {xs xs' : List Value} (items : P xs xs') : Shape (.list xs) (.list xs')
  | tuple {xs xs' : List Value} (items : P xs xs') : Shape (.tuple xs) (.tuple xs')
  | dict {m m' : Mapping} (entries : P m m') : Shape (.dict m) (.dict m')
  | frozen {m m' : Mapping} (entries : P m m') : Shape (.frozen m) (.frozen m')
  | capability (c : Capability) : Shape (.capability c) (.capability c)
  | capabilities (s : CapabilitySet) : Shape (.capabilities s) (.capabilities s)
  | effect {e e' : Effect} (h : P e e') : Shape (.effect e) (.effect e')
  | chain {c c' : Chain} (h : P c c') : Shape (.chain c) (.chain c')
  | function {f f' : Callable} (made : f.IsMade) (h : P f f') : Shape (.function f) (.function f')
  | handler {a a' : Handler} (h : P a a') : Shape (.handler a) (.handler a')
  | handled {s s' n n' : Value} (state : P s s') (next : P n n') :
    Shape (.handled s n) (.handled s' n')
  | declined : Shape .declined .declined
  | result {v v' o o' : Value} (value : P v v') (output : P o o') :
    Shape (.result v o) (.result v' o')
  | cell (a : Nat) : Shape (.cell a) (.cell a)
  | refusal {id id' : Nat} {r r' : Refusal} (ids : I id id') (h : P r r') :
    Shape (.refusal id r) (.refusal id' r')

/-- Two requests of one shape. -/
inductive Request.Shape : Request → Request → Prop
  | log {m m' : Value} (message : P m m') : Shape (.log m) (.log m')
  | loudLog {m m' v v' : Value} (message : P m m') (volume : P v v') :
    Shape (.loudLog m v) (.loudLog m' v')
  | writeLine {l l' : Value} (line : P l l') : Shape (.writeLine l) (.writeLine l')
  | readLine : Shape .readLine .readLine
  | beep : Shape .beep .beep
  | get {k k' : Value} (key : P k k') : Shape (.get k) (.get k')
  | put {k k' v v' : Value} (key : P k k') (value : P v v') : Shape (.put k v) (.put k' v')
  | modify {k k' f f' : Value} (key : P k k') (function : P f f') :
    Shape (.modify k f) (.modify k' f')
  | poke {k k' : Value} (key : P k k') : Shape (.poke k) (.poke k')
  | tick {n n' : Value} (amount : P n n') : Shape (.tick n) (.tick n')
  | custom (name capability : String) {v v' : Value} (payload : P v v') :
    Shape (.custom name capability v) (.custom name capability v')

/-- Two effects of one shape. -/
structure Effect.Shape (e e' : Effect) : Prop where
  request : P e.request e'.request
  pipeline : P e.pipeline e'.pipeline

/-- Two chains of one shape. -/
inductive Chain.Shape : Chain → Chain → Prop
  | done {v v' : Value} (r : CapabilitySet) (value : P v v') : Shape (.done v r) (.done v' r)
  | suspended {e e' : Effect} (r : CapabilitySet) (effect : P e e') :
    Shape (.suspended e r) (.suspended e' r)

/-- Two stages of one shape. -/
inductive Stage.Shape : Stage → Stage → Prop
  | call {f f' : Callable} (h : P f f') : Shape (.call f) (.call f')
  | lift : Shape .lift .lift
  | bind {b b' : Binder} (h : P b b') : Shape (.bind b) (.bind b')

/-- Two binders of one shape. -/
inductive Binder.Shape : Binder → Binder → Prop
  | call {f f' : Callable} (h : P f f') : Shape (.call f) (.call f')
  | map {f f' : Callable} (h : P f f') : Shape (.map f) (.map f')
  | always {c c' : Chain} (h : P c c') : Shape (.always c) (.always c')
  | gather {c c' : Chain} (h : P c c') : Shape (.gather c) (.gather c')
  | append {xs xs' : List Value} (collected : P xs xs') : Shape (.append xs) (.append xs')

/-- Two functions of one shape, bindings that their code does not mention apart. -/
inductive Callable.Shape : Callable → Callable → Prop
  | closure {id id' : Nat} (params : List String) (body : Expr) {env env' : Env} (ids : I id id')
      (bindings : ∀ x ∈ body.names, P (env.lookup x) (env'.lookup x)) :
    Shape (.closure id params body env) (.closure id' params body env')
  | fixpoint {id id' : Nat} (name : String) (params : List String) (body : Expr) {env env' : Env}
      (ids : I id id') (bindings : ∀ x ∈ body.names, P (env.lookup x) (env'.lookup x)) :
    Shape (.fixpoint id name params body env) (.fixpoint id' name params body env')
  | program {id id' : Nat} (requires : CapabilitySet) (params : List String) (body : Routine)
      {env env' : Env} (ids : I id id')
      (bindings : ∀ x ∈ body.names, P (env.lookup x) (env'.lookup x)) :
    Shape (.program id requires params body env) (.program id' requires params body env')
  | resumption {id id' : Nat} (h : Nat) (calls : C id id') :
    Shape (.resumption id h) (.resumption id' h)

/-- The methods of two custom handlers, of one shape. -/
structure CustomMethods.Shape (m m' : CustomMethods) : Prop where
  name : m'.name = m.name
  base : m'.base = m.base
  kind : m'.kind = m.kind
  capabilities : m'.capabilities = m.capabilities
  start : P m.start m'.start
  step : P m.step m'.step
  offer : P m.offer m'.offer
  finish : P m.finish m'.finish

/-- Two handlers of one shape. -/
inductive Handler.Shape : Handler → Handler → Prop
  | collector {id id' : Nat} (ids : I id id') : Shape (.collector id) (.collector id')
  | emitter {id id' : Nat} {l l' c c' : Value} (ids : I id id') (level : P l l')
      (component : P c c') : Shape (.emitter id l c) (.emitter id' l' c')
  | transcript {id id' : Nat} {xs xs' : List Value} (ids : I id id') (lines : P xs xs') :
    Shape (.transcript id xs) (.transcript id' xs')
  | stream {id id' : Nat} (source : Nat) (ids : I id id') :
    Shape (.stream id source) (.stream id' source)
  | store {id id' : Nat} {m m' : Mapping} (ids : I id id') (initial : P m m') :
    Shape (.store id m) (.store id' m')
  | counter {id id' : Nat} (ids : I id id') : Shape (.counter id) (.counter id')
  | recorder {id id' : Nat} (journal : Nat) {a a' : Handler} (ids : I id id') (inner : P a a') :
    Shape (.recorder id journal a) (.recorder id' journal a')
  | pair {id id' : Nat} {a a' b b' : Handler} (ids : I id id') (first : P a a')
      (second : P b b') : Shape (.pair id a b) (.pair id' a' b')
  | custom {id id' : Nat} {m m' : CustomMethods} (ids : I id id')
      (methods : CustomMethods.Shape P m m') : Shape (.custom id m) (.custom id' m')

end

/-! ### Data and data with names -/

section

variable {N : Naming}

theorem namedAs_option {α : Type} [Along α] {x y : Option α} :
    NamedAs N x y ↔ Option.Rel (NamedAs N) x y := by
  constructor
  · rintro ⟨h, rfl⟩
    cases x with
    | none => exact .none
    | some a => exact .some ⟨h a rfl, rfl⟩
  · intro h
    cases h with
    | none => exact .none
    | some h => exact .some h

theorem optionAlong_eq (x : Option Value) : optionAlong N x = Along.along N x := by
  cases x <;> rfl

theorem optionNamed_iff {x : Option Value} : optionNamed N x ↔ Along.named N x := by
  cases x with
  | none => exact ⟨fun _ => nofun, fun _ => trivial⟩
  | some v => exact ⟨fun h _ hw => Option.some.inj hw ▸ h, fun h => h v rfl⟩

theorem Naming.idOf_spec {n : Nat} (h : N.HasId n) : N.ids n = some (N.idOf n) := by
  obtain ⟨k, hk⟩ := h
  rw [Naming.idOf_eq hk, hk]

theorem Naming.callOf_spec {n : Nat} (h : N.HasCall n) : N.calls n = some (N.callOf n) := by
  obtain ⟨k, hk⟩ := h
  rw [Naming.callOf_eq hk, hk]

/-- What the names of some variables are bound to. -/
theorem lookup_mentioned (f : String → Option Value) (names : List String) (x : String) :
    Env.lookup (names.filterMap fun x => (f x).map (x, ·)) x = if x ∈ names then f x else none := by
  induction names with
  | nil => rfl
  | cons n names ih =>
    by_cases hn : n = x
    · subst hn
      cases hlook : f n with
      | none => simpa [hlook] using ih
      | some v => simp [hlook, Env.lookup]
    · cases hlook : f n with
      | none => simpa [hlook, Ne.symm hn] using ih
      | some v => simpa [hlook, Env.lookup, hn, Ne.symm hn] using ih

theorem bindings_namedAs {env : Env} {names : List String} (h : ∀ x ∈ names, bindingNamed N env x)
    {x : String} (hx : x ∈ names) : NamedAs N (env.lookup x)
      (Env.lookup (names.filterMap fun x => (bindingAlong N env x).map (x, ·)) x) :=
  ⟨bindingNamed_iff.mp (h x hx), by rw [lookup_mentioned, if_pos hx, bindingAlong_eq]; rfl⟩

theorem Value.shape_named {v m : Value} (h : NamedAs N v m) :
    Value.Shape (NamedAs N) (N.ids · = some ·) v m := by
  obtain ⟨h, rfl⟩ := h
  cases v with
  | null => exact .null
  | bool b => exact .bool b
  | int n => exact .int n
  | text s => exact .text s
  | list xs => exact .list ⟨named_values.mpr h, (along_values xs).symm⟩
  | tuple xs => exact .tuple ⟨named_values.mpr h, (along_values xs).symm⟩
  | dict m => exact .dict ⟨named_entries.mpr h, (along_entries m).symm⟩
  | frozen m => exact .frozen ⟨named_entries.mpr h, (along_entries m).symm⟩
  | capability c => exact .capability c
  | capabilities s => exact .capabilities s
  | effect e => exact .effect ⟨h, rfl⟩
  | chain c => exact .chain ⟨h, rfl⟩
  | function f => exact .function h.1 ⟨h.2, rfl⟩
  | handler a => exact .handler ⟨h, rfl⟩
  | handled s n => exact .handled ⟨h.1, rfl⟩ ⟨h.2, rfl⟩
  | declined => exact .declined
  | result v o => exact .result ⟨h.1, rfl⟩ ⟨h.2, rfl⟩
  | cell a => exact .cell a
  | refusal id r => exact .refusal (Naming.idOf_spec h.1) ⟨h.2, rfl⟩

theorem Request.shape_named {r m : Request} (h : NamedAs N r m) :
    Request.Shape (NamedAs N) r m := by
  obtain ⟨h, rfl⟩ := h
  cases r with
  | log m => exact .log ⟨h, rfl⟩
  | loudLog m v => exact .loudLog ⟨h.1, rfl⟩ ⟨h.2, rfl⟩
  | writeLine l => exact .writeLine ⟨h, rfl⟩
  | readLine => exact .readLine
  | beep => exact .beep
  | get k => exact .get ⟨h, rfl⟩
  | put k v => exact .put ⟨h.1, rfl⟩ ⟨h.2, rfl⟩
  | modify k f => exact .modify ⟨h.1, rfl⟩ ⟨h.2, rfl⟩
  | poke k => exact .poke ⟨h, rfl⟩
  | tick n => exact .tick ⟨h, rfl⟩
  | custom n c v => exact .custom n c ⟨h, rfl⟩

theorem Effect.shape_named {e m : Effect} (h : NamedAs N e m) : Effect.Shape (NamedAs N) e m := by
  obtain ⟨h, rfl⟩ := h
  cases e with
  | mk r ss => exact ⟨⟨h.1, rfl⟩, named_stages.mpr h.2, (along_stages ss).symm⟩

theorem Chain.shape_named {c m : Chain} (h : NamedAs N c m) : Chain.Shape (NamedAs N) c m := by
  obtain ⟨h, rfl⟩ := h
  cases c with
  | done v r => exact .done r ⟨h, rfl⟩
  | suspended e r => exact .suspended r ⟨h, rfl⟩

theorem Stage.shape_named {s m : Stage} (h : NamedAs N s m) : Stage.Shape (NamedAs N) s m := by
  obtain ⟨h, rfl⟩ := h
  cases s with
  | call f => exact .call ⟨h, rfl⟩
  | lift => exact .lift
  | bind b => exact .bind ⟨h, rfl⟩

theorem Binder.shape_named {b m : Binder} (h : NamedAs N b m) : Binder.Shape (NamedAs N) b m := by
  obtain ⟨h, rfl⟩ := h
  cases b with
  | call f => exact .call ⟨h, rfl⟩
  | map f => exact .map ⟨h, rfl⟩
  | always c => exact .always ⟨h, rfl⟩
  | gather c => exact .gather ⟨h, rfl⟩
  | append xs => exact .append ⟨named_values.mpr h, (along_values xs).symm⟩

theorem Callable.shape_named {f m : Callable} (h : NamedAs N f m) :
    Callable.Shape (NamedAs N) (N.ids · = some ·) (N.calls · = some ·) f m := by
  obtain ⟨h, rfl⟩ := h
  cases f with
  | closure id params body env =>
    exact .closure params body (Naming.idOf_spec h.1) fun x => bindings_namedAs h.2
  | fixpoint id name params body env =>
    exact .fixpoint name params body (Naming.idOf_spec h.1) fun x => bindings_namedAs h.2
  | program id requires params body env =>
    exact .program requires params body (Naming.idOf_spec h.1) fun x => bindings_namedAs h.2
  | resumption id a => exact .resumption a (Naming.callOf_spec h)

theorem Handler.shape_named {a m : Handler} (h : NamedAs N a m) :
    Handler.Shape (NamedAs N) (N.ids · = some ·) a m := by
  obtain ⟨h, rfl⟩ := h
  cases a with
  | collector id => exact .collector (Naming.idOf_spec h)
  | emitter id l c => exact .emitter (Naming.idOf_spec h.1) ⟨h.2.1, rfl⟩ ⟨h.2.2, rfl⟩
  | transcript id xs =>
    exact .transcript (Naming.idOf_spec h.1) ⟨named_values.mpr h.2, (along_values xs).symm⟩
  | stream id source => exact .stream source (Naming.idOf_spec h)
  | store id m =>
    exact .store (Naming.idOf_spec h.1) ⟨named_entries.mpr h.2, (along_entries m).symm⟩
  | counter id => exact .counter (Naming.idOf_spec h)
  | recorder id journal a => exact .recorder journal (Naming.idOf_spec h.1) ⟨h.2, rfl⟩
  | pair id a b => exact .pair (Naming.idOf_spec h.1) ⟨h.2.1, rfl⟩ ⟨h.2.2, rfl⟩
  | custom id m =>
    obtain ⟨hid, hm⟩ := h
    cases m with
    | mk name base kind capabilities start step offer finish =>
      exact .custom (Naming.idOf_spec hid) ⟨rfl, rfl, rfl, rfl,
        ⟨optionNamed_iff.mp hm.1, (optionAlong_eq start).symm⟩,
        ⟨optionNamed_iff.mp hm.2.1, (optionAlong_eq step).symm⟩,
        ⟨optionNamed_iff.mp hm.2.2.1, (optionAlong_eq offer).symm⟩,
        ⟨optionNamed_iff.mp hm.2.2.2, (optionAlong_eq finish).symm⟩⟩

end

/-! ### Counterparts -/

section

variable {L : Link}

theorem Link.ids_of_names {n n' k : Nat} (h : L.left.ids n = some k)
    (h' : L.right.ids n' = some k) :
    L.ids n = some n' := by
  obtain ⟨m, hm, rfl⟩ := Option.map_eq_some_iff.mp h
  obtain ⟨m', -, hk⟩ := Option.map_eq_some_iff.mp h'
  obtain ⟨-, rfl⟩ := Nat.pair_eq_pair.mp hk
  exact hm

theorem Link.names_of_ids {n n' : Nat} (h : L.ids n = some n') :
    L.left.ids n = some (Nat.pair n n') ∧ L.right.ids n' = some (Nat.pair n n') :=
  ⟨Option.map_eq_some_iff.mpr ⟨n', h, rfl⟩,
    Option.map_eq_some_iff.mpr ⟨n, (PEquiv.eq_some_iff _).mpr h, rfl⟩⟩

/-- Calls that stand for each other, and of which everything is the same. -/
def Link.Calls (L : Link) (n n' : Nat) : Prop := L.calls n = some n' ∧ L.plain n = true

theorem Link.calls_of_names {n n' k : Nat} (h : L.left.calls n = some k)
    (h' : L.right.calls n' = some k) : L.Calls n n' := by
  simp only [Link.left] at h
  split at h
  · rename_i hplain
    obtain ⟨m, hm, rfl⟩ := Option.map_eq_some_iff.mp h
    obtain ⟨m', -, hk⟩ := Option.bind_eq_some_iff.mp h'
    split at hk
    · obtain ⟨rfl, rfl⟩ := Nat.pair_eq_pair.mp (Option.some.inj hk)
      exact ⟨hm, hplain⟩
    · cases hk
  · cases h

theorem Link.names_of_calls {n n' : Nat} (h : L.Calls n n') :
    L.left.calls n = some (Nat.pair n n') ∧ L.right.calls n' = some (Nat.pair n n') := by
  constructor
  · simp only [Link.left, if_pos h.2]
    exact Option.map_eq_some_iff.mpr ⟨n', h.1, rfl⟩
  · refine Option.bind_eq_some_iff.mpr ⟨n, (PEquiv.eq_some_iff _).mpr h.1, ?_⟩
    rw [if_pos h.2]

theorem counterpart_option {α : Type} [Along α] {x y : Option α} :
    Counterpart L x y ↔ Option.Rel (Counterpart L) x y := by
  constructor
  · rintro ⟨m, hx, hy⟩
    rw [namedAs_option] at hx hy
    cases hx with
    | none =>
      cases hy
      exact .none
    | some hx =>
      cases hy with
      | some hy => exact .some ⟨_, hx, hy⟩
  · intro h
    cases h with
    | none => exact ⟨none, .none, .none⟩
    | some h =>
      obtain ⟨m, hx, hy⟩ := h
      exact ⟨some m, .some hx, .some hy⟩

theorem counterpart_list {α : Type} [Along α] {xs ys : List α} :
    Counterpart L xs ys ↔ List.Forall₂ (Counterpart L) xs ys := by
  constructor
  · rintro ⟨_, ⟨hx, hxs⟩, hy, rfl⟩
    induction xs generalizing ys with
    | nil =>
      obtain rfl := List.map_eq_nil_iff.mp hxs.symm
      exact .nil
    | cons x xs ih =>
      cases ys with
      | nil => cases hxs
      | cons y ys =>
        obtain ⟨hx, hx'⟩ := List.forall_mem_cons.mp hx
        obtain ⟨hy, hy'⟩ := List.forall_mem_cons.mp hy
        obtain ⟨hhead, htail⟩ := List.cons.inj hxs
        exact .cons ⟨_, ⟨hx, hhead⟩, hy, rfl⟩ (ih hx' hy' htail)
  · intro h
    induction h with
    | nil => exact ⟨[], .nil, .nil⟩
    | cons h _ ih =>
      obtain ⟨m, hx, hy⟩ := h
      obtain ⟨ms, hxs, hys⟩ := ih
      exact ⟨m :: ms, .cons hx hxs, .cons hy hys⟩

theorem counterpart_prod {α β : Type} [Along α] [Along β] {p q : α × β} :
    Counterpart L p q ↔ Counterpart L p.1 q.1 ∧ Counterpart L p.2 q.2 := by
  constructor
  · rintro ⟨m, ⟨hp, rfl⟩, hq, h⟩
    exact ⟨⟨_, ⟨hp.1, rfl⟩, hq.1, congrArg Prod.fst h⟩, _, ⟨hp.2, rfl⟩, hq.2, congrArg Prod.snd h⟩
  · rintro ⟨⟨m, h₁, h₁'⟩, n, h₂, h₂'⟩
    exact ⟨(m, n), .mk h₁ h₂, .mk h₁' h₂'⟩

theorem Value.shape {v v' : Value} (h : Counterpart L v v') :
    Value.Shape (Counterpart L) (L.ids · = some ·) v v' := by
  obtain ⟨m, hl, hr⟩ := h
  have hr := Value.shape_named hr
  cases Value.shape_named hl with
  | null => cases hr; exact .null
  | bool b => cases hr; exact .bool b
  | int n => cases hr; exact .int n
  | text s => cases hr; exact .text s
  | list h => cases hr with | list h' => exact .list ⟨_, h, h'⟩
  | tuple h => cases hr with | tuple h' => exact .tuple ⟨_, h, h'⟩
  | dict h => cases hr with | dict h' => exact .dict ⟨_, h, h'⟩
  | frozen h => cases hr with | frozen h' => exact .frozen ⟨_, h, h'⟩
  | capability c => cases hr; exact .capability c
  | capabilities s => cases hr; exact .capabilities s
  | effect h => cases hr with | effect h' => exact .effect ⟨_, h, h'⟩
  | chain h => cases hr with | chain h' => exact .chain ⟨_, h, h'⟩
  | function made h => cases hr with | function _ h' => exact .function made ⟨_, h, h'⟩
  | handler h => cases hr with | handler h' => exact .handler ⟨_, h, h'⟩
  | handled hs hn =>
    cases hr with | handled hs' hn' => exact .handled ⟨_, hs, hs'⟩ ⟨_, hn, hn'⟩
  | declined => cases hr; exact .declined
  | result hv ho => cases hr with | result hv' ho' => exact .result ⟨_, hv, hv'⟩ ⟨_, ho, ho'⟩
  | cell a => cases hr; exact .cell a
  | refusal ids h =>
    cases hr with | refusal ids' h' => exact .refusal (Link.ids_of_names ids ids') ⟨_, h, h'⟩

theorem Request.shape {r r' : Request} (h : Counterpart L r r') :
    Request.Shape (Counterpart L) r r' := by
  obtain ⟨m, hl, hr⟩ := h
  have hr := Request.shape_named hr
  cases Request.shape_named hl with
  | log h => cases hr with | log h' => exact .log ⟨_, h, h'⟩
  | loudLog h g => cases hr with | loudLog h' g' => exact .loudLog ⟨_, h, h'⟩ ⟨_, g, g'⟩
  | writeLine h => cases hr with | writeLine h' => exact .writeLine ⟨_, h, h'⟩
  | readLine => cases hr; exact .readLine
  | beep => cases hr; exact .beep
  | get h => cases hr with | get h' => exact .get ⟨_, h, h'⟩
  | put h g => cases hr with | put h' g' => exact .put ⟨_, h, h'⟩ ⟨_, g, g'⟩
  | modify h g => cases hr with | modify h' g' => exact .modify ⟨_, h, h'⟩ ⟨_, g, g'⟩
  | poke h => cases hr with | poke h' => exact .poke ⟨_, h, h'⟩
  | tick h => cases hr with | tick h' => exact .tick ⟨_, h, h'⟩
  | custom n c h => cases hr with | custom _ _ h' => exact .custom n c ⟨_, h, h'⟩

theorem Effect.shape {e e' : Effect} (h : Counterpart L e e') :
    Effect.Shape (Counterpart L) e e' :=
  let ⟨_, hl, hr⟩ := h
  ⟨⟨_, (Effect.shape_named hl).request, (Effect.shape_named hr).request⟩,
    _, (Effect.shape_named hl).pipeline, (Effect.shape_named hr).pipeline⟩

theorem Chain.shape {c c' : Chain} (h : Counterpart L c c') : Chain.Shape (Counterpart L) c c' := by
  obtain ⟨m, hl, hr⟩ := h
  have hr := Chain.shape_named hr
  cases Chain.shape_named hl with
  | done r h => cases hr with | done _ h' => exact .done r ⟨_, h, h'⟩
  | suspended r h => cases hr with | suspended _ h' => exact .suspended r ⟨_, h, h'⟩

theorem Stage.shape {s s' : Stage} (h : Counterpart L s s') : Stage.Shape (Counterpart L) s s' := by
  obtain ⟨m, hl, hr⟩ := h
  have hr := Stage.shape_named hr
  cases Stage.shape_named hl with
  | call h => cases hr with | call h' => exact .call ⟨_, h, h'⟩
  | lift => cases hr; exact .lift
  | bind h => cases hr with | bind h' => exact .bind ⟨_, h, h'⟩

theorem Binder.shape {b b' : Binder} (h : Counterpart L b b') :
    Binder.Shape (Counterpart L) b b' := by
  obtain ⟨m, hl, hr⟩ := h
  have hr := Binder.shape_named hr
  cases Binder.shape_named hl with
  | call h => cases hr with | call h' => exact .call ⟨_, h, h'⟩
  | map h => cases hr with | map h' => exact .map ⟨_, h, h'⟩
  | always h => cases hr with | always h' => exact .always ⟨_, h, h'⟩
  | gather h => cases hr with | gather h' => exact .gather ⟨_, h, h'⟩
  | append h => cases hr with | append h' => exact .append ⟨_, h, h'⟩

theorem Callable.shape {f f' : Callable} (h : Counterpart L f f') :
    Callable.Shape (Counterpart L) (L.ids · = some ·) L.Calls f f' := by
  obtain ⟨m, hl, hr⟩ := h
  have hr := Callable.shape_named hr
  cases Callable.shape_named hl with
  | closure params body ids h =>
    cases hr with
    | closure _ _ ids' h' =>
      exact .closure params body (Link.ids_of_names ids ids') fun x hx => ⟨_, h x hx, h' x hx⟩
  | fixpoint name params body ids h =>
    cases hr with
    | fixpoint _ _ _ ids' h' =>
      exact .fixpoint name params body (Link.ids_of_names ids ids')
        fun x hx => ⟨_, h x hx, h' x hx⟩
  | program requires params body ids h =>
    cases hr with
    | program _ _ _ ids' h' =>
      exact .program requires params body (Link.ids_of_names ids ids')
        fun x hx => ⟨_, h x hx, h' x hx⟩
  | resumption a h =>
    cases hr with | resumption _ h' => exact .resumption a (Link.calls_of_names h h')

theorem Handler.shape {a a' : Handler} (h : Counterpart L a a') :
    Handler.Shape (Counterpart L) (L.ids · = some ·) a a' := by
  obtain ⟨m, hl, hr⟩ := h
  have hr := Handler.shape_named hr
  cases Handler.shape_named hl with
  | collector i => cases hr with | collector i' => exact .collector (Link.ids_of_names i i')
  | emitter i h g =>
    cases hr with
    | emitter i' h' g' => exact .emitter (Link.ids_of_names i i') ⟨_, h, h'⟩ ⟨_, g, g'⟩
  | transcript i h =>
    cases hr with | transcript i' h' => exact .transcript (Link.ids_of_names i i') ⟨_, h, h'⟩
  | stream source i =>
    cases hr with | stream _ i' => exact .stream source (Link.ids_of_names i i')
  | store i h => cases hr with | store i' h' => exact .store (Link.ids_of_names i i') ⟨_, h, h'⟩
  | counter i => cases hr with | counter i' => exact .counter (Link.ids_of_names i i')
  | recorder journal i h =>
    cases hr with
    | recorder _ i' h' => exact .recorder journal (Link.ids_of_names i i') ⟨_, h, h'⟩
  | pair i h g =>
    cases hr with
    | pair i' h' g' => exact .pair (Link.ids_of_names i i') ⟨_, h, h'⟩ ⟨_, g, g'⟩
  | custom i h =>
    cases hr with
    | custom i' h' =>
      exact .custom (Link.ids_of_names i i') ⟨h'.name.symm.trans h.name, h'.base.symm.trans h.base,
        h'.kind.symm.trans h.kind, h'.capabilities.symm.trans h.capabilities,
        ⟨_, h.start, h'.start⟩,
        ⟨_, h.step, h'.step⟩, ⟨_, h.offer, h'.offer⟩, ⟨_, h.finish, h'.finish⟩⟩

/-! ### Data with counterparts inside -/

namespace Counterpart

section

variable {α β ε : Type} [Along α] [Along β] [Along ε]

theorem some {a a' : α} (h : Counterpart L a a') : Counterpart L (some a) (some a') :=
  counterpart_option.mpr (.some h)

theorem none : Counterpart L (none : Option α) none := counterpart_option.mpr .none

theorem nil : Counterpart L ([] : List α) [] := counterpart_list.mpr .nil

theorem cons {a a' : α} {as as' : List α} (h : Counterpart L a a') (hs : Counterpart L as as') :
    Counterpart L (a :: as) (a' :: as') := counterpart_list.mpr (.cons h (counterpart_list.mp hs))

theorem append {as as' bs bs' : List α} (ha : Counterpart L as as') (hb : Counterpart L bs bs') :
    Counterpart L (as ++ bs) (as' ++ bs') := map₂ (· ++ ·) .append ha hb

theorem reverse {as as' : List α} (h : Counterpart L as as') :
    Counterpart L as.reverse as'.reverse := map List.reverse .reverse h

end

section

variable {v v' w w' : Value} {vs vs' : List Value} {m m' : Mapping} {e e' : Effect}
  {c c' : Chain} {a a' b b' : Handler} {f f' : Callable} {r r' : Request} {id id' : Nat}

/-! #### Values -/

theorem null : Counterpart L Value.null .null := of_plain .null

theorem bool (b : Bool) : Counterpart L (Value.bool b) (.bool b) := of_plain (.bool b)

theorem int (n : Int) : Counterpart L (Value.int n) (.int n) := of_plain (.int n)

theorem text (s : String) : Counterpart L (Value.text s) (.text s) := of_plain (.text s)

theorem capability (c : Capability) : Counterpart L (Value.capability c) (.capability c) :=
  of_plain ⟨trivial, rfl⟩

theorem capabilities (s : CapabilitySet) :
    Counterpart L (Value.capabilities s) (.capabilities s) := of_plain ⟨trivial, rfl⟩

theorem declined : Counterpart L Value.declined .declined := of_plain ⟨trivial, rfl⟩

theorem cell (n : Nat) : Counterpart L (Value.cell n) (.cell n) := of_plain ⟨trivial, rfl⟩

theorem list (h : Counterpart L vs vs') : Counterpart L (Value.list vs) (.list vs') :=
  map Value.list .list h

theorem tuple (h : Counterpart L vs vs') : Counterpart L (Value.tuple vs) (.tuple vs') :=
  map Value.tuple .tuple h

theorem dict (h : Counterpart L m m') : Counterpart L (Value.dict m) (.dict m') :=
  map Value.dict .dict h

theorem frozen (h : Counterpart L m m') : Counterpart L (Value.frozen m) (.frozen m') :=
  map Value.frozen .frozen h

theorem result (hv : Counterpart L v v') (hw : Counterpart L w w') :
    Counterpart L (Value.result v w) (.result v' w') := map₂ Value.result .result hv hw

theorem handled (hv : Counterpart L v v') (hw : Counterpart L w w') :
    Counterpart L (Value.handled v w) (.handled v' w') := map₂ Value.handled .handled hv hw

theorem effect (h : Counterpart L e e') : Counterpart L (Value.effect e) (.effect e') :=
  map Value.effect .effect h

theorem chain (h : Counterpart L c c') : Counterpart L (Value.chain c) (.chain c') :=
  map Value.chain .chain h

theorem handler (h : Counterpart L a a') : Counterpart L (Value.handler a) (.handler a') :=
  map Value.handler .handler h

theorem function (made : f.IsMade) (h : Counterpart L f f') :
    Counterpart L (Value.function f) (.function f') := by
  obtain ⟨m, hl, hr⟩ := h
  have made' : f'.IsMade := by
    have hr := Callable.shape_named hr
    cases Callable.shape_named hl <;> cases hr <;> exact made
  exact ⟨.function m, .function made hl, .function made' hr⟩

theorem refusal (hid : L.ids id = Option.some id') {q q' : Refusal} (h : Counterpart L q q') :
    Counterpart L (Value.refusal id q) (.refusal id' q') := by
  obtain ⟨m, hl, hr⟩ := h
  obtain ⟨hil, hir⟩ := Link.names_of_ids hid
  exact ⟨.refusal (Nat.pair id id') m,
    ⟨⟨⟨_, hil⟩, hl.1⟩, congrArg₂ Value.refusal (Naming.idOf_eq hil) hl.2⟩,
    ⟨⟨_, hir⟩, hr.1⟩, congrArg₂ Value.refusal (Naming.idOf_eq hir) hr.2⟩

/-! #### Requests, effects and chains -/

theorem log (h : Counterpart L v v') : Counterpart L (Request.log v) (.log v') :=
  map Request.log (fun h => ⟨h.1, congrArg Request.log h.2⟩) h

theorem writeLine (h : Counterpart L v v') :
    Counterpart L (Request.writeLine v) (.writeLine v') :=
  map Request.writeLine (fun h => ⟨h.1, congrArg Request.writeLine h.2⟩) h

theorem readLine : Counterpart L Request.readLine .readLine := of_plain ⟨trivial, rfl⟩

theorem beep : Counterpart L Request.beep .beep := of_plain ⟨trivial, rfl⟩

theorem get (h : Counterpart L v v') : Counterpart L (Request.get v) (.get v') :=
  map Request.get (fun h => ⟨h.1, congrArg Request.get h.2⟩) h

theorem poke (h : Counterpart L v v') : Counterpart L (Request.poke v) (.poke v') :=
  map Request.poke (fun h => ⟨h.1, congrArg Request.poke h.2⟩) h

theorem tick (h : Counterpart L v v') : Counterpart L (Request.tick v) (.tick v') :=
  map Request.tick (fun h => ⟨h.1, congrArg Request.tick h.2⟩) h

theorem custom (name capability : String) (h : Counterpart L v v') :
    Counterpart L (Request.custom name capability v) (.custom name capability v') :=
  map (Request.custom name capability)
    (fun h => ⟨h.1, congrArg (Request.custom name capability) h.2⟩) h

theorem loudLog (hv : Counterpart L v v') (hw : Counterpart L w w') :
    Counterpart L (Request.loudLog v w) (.loudLog v' w') := by
  refine map₂ Request.loudLog (fun h g => ?_) hv hw
  exact ⟨⟨h.1, g.1⟩, congrArg₂ Request.loudLog h.2 g.2⟩

theorem put (hv : Counterpart L v v') (hw : Counterpart L w w') :
    Counterpart L (Request.put v w) (.put v' w') := by
  refine map₂ Request.put (fun h g => ?_) hv hw
  exact ⟨⟨h.1, g.1⟩, congrArg₂ Request.put h.2 g.2⟩

theorem modify (hv : Counterpart L v v') (hw : Counterpart L w w') :
    Counterpart L (Request.modify v w) (.modify v' w') := by
  refine map₂ Request.modify (fun h g => ?_) hv hw
  exact ⟨⟨h.1, g.1⟩, congrArg₂ Request.modify h.2 g.2⟩

theorem request (h : Counterpart L e e') : Counterpart L e.request e'.request :=
  (Effect.shape h).request

theorem pipeline (h : Counterpart L e e') : Counterpart L e.pipeline e'.pipeline :=
  (Effect.shape h).pipeline

/-- Effects are counterparts if their requests and their pipelines are. -/
theorem effectOf {ss ss' : List Stage} (hr : Counterpart L r r') (hs : Counterpart L ss ss') :
    Counterpart L (Effect.mk r ss) ⟨r', ss'⟩ := by
  refine map₂ Effect.mk (fun h g => ?_) hr hs
  exact ⟨⟨h.1, named_stages.mp g.1⟩, congrArg₂ Effect.mk h.2 ((along_stages _).trans g.2)⟩

theorem done (h : Counterpart L v v') (s : CapabilitySet) :
    Counterpart L (Chain.done v s) (.done v' s) :=
  map (Chain.done · s) (fun h => ⟨h.1, congrArg (Chain.done · s) h.2⟩) h

theorem suspended (h : Counterpart L e e') (s : CapabilitySet) :
    Counterpart L (Chain.suspended e s) (.suspended e' s) :=
  map (Chain.suspended · s) (fun h => ⟨h.1, congrArg (Chain.suspended · s) h.2⟩) h

/-! #### Stages and binders -/

theorem stageCall (h : Counterpart L f f') : Counterpart L (Stage.call f) (.call f') :=
  map Stage.call (fun h => ⟨h.1, congrArg Stage.call h.2⟩) h

theorem stageLift : Counterpart L Stage.lift .lift := of_plain ⟨trivial, rfl⟩

theorem stageBind {q q' : Binder} (h : Counterpart L q q') :
    Counterpart L (Stage.bind q) (.bind q') :=
  map Stage.bind (fun h => ⟨h.1, congrArg Stage.bind h.2⟩) h

theorem binderCall (h : Counterpart L f f') : Counterpart L (Binder.call f) (.call f') :=
  map Binder.call (fun h => ⟨h.1, congrArg Binder.call h.2⟩) h

theorem binderMap (h : Counterpart L f f') : Counterpart L (Binder.map f) (.map f') :=
  map Binder.map (fun h => ⟨h.1, congrArg Binder.map h.2⟩) h

theorem always (h : Counterpart L c c') : Counterpart L (Binder.always c) (.always c') :=
  map Binder.always (fun h => ⟨h.1, congrArg Binder.always h.2⟩) h

theorem gather (h : Counterpart L c c') : Counterpart L (Binder.gather c) (.gather c') :=
  map Binder.gather (fun h => ⟨h.1, congrArg Binder.gather h.2⟩) h

theorem binderAppend (h : Counterpart L vs vs') :
    Counterpart L (Binder.append vs) (.append vs') :=
  map Binder.append
    (fun h => ⟨named_values.mp h.1, congrArg Binder.append ((along_values _).trans h.2)⟩) h

/-! #### Functions and handlers -/

/-- What code mentions has the same names if it is bound to counterparts. -/
theorem bindings {env env' : Env} {names : List String}
    (h : ∀ x ∈ names, Counterpart L (env.lookup x) (env'.lookup x)) :
    (∀ x ∈ names, bindingNamed L.left env x ∧ bindingNamed L.right env' x) ∧
      (names.filterMap fun x => (bindingAlong L.left env x).map (x, ·))
        = names.filterMap fun x => (bindingAlong L.right env' x).map (x, ·) := by
  refine ⟨fun x hx => ?_, List.filterMap_congr fun x hx => ?_⟩
  · obtain ⟨m, hl, hr⟩ := h x hx
    exact ⟨bindingNamed_iff.mpr hl.1, bindingNamed_iff.mpr hr.1⟩
  · obtain ⟨m, hl, hr⟩ := h x hx
    rw [bindingAlong_eq, bindingAlong_eq]
    exact congrArg _ (hl.2.trans hr.2.symm)

theorem closure (hid : L.ids id = Option.some id') (params : List String) (body : Expr)
    {env env' : Env} (h : ∀ x ∈ body.names, Counterpart L (env.lookup x) (env'.lookup x)) :
    Counterpart L (Callable.closure id params body env) (.closure id' params body env') := by
  obtain ⟨hnamed, halong⟩ := bindings h
  obtain ⟨hil, hir⟩ := Link.names_of_ids hid
  refine ⟨_, ⟨⟨⟨_, hil⟩, fun x hx => (hnamed x hx).1⟩, rfl⟩,
    ⟨⟨_, hir⟩, fun x hx => (hnamed x hx).2⟩, ?_⟩
  exact congrArg₂ (Callable.closure · params body ·)
    ((Naming.idOf_eq hir).trans (Naming.idOf_eq hil).symm) halong.symm

theorem fixpoint (hid : L.ids id = Option.some id') (name : String) (params : List String)
    (body : Expr) {env env' : Env}
    (h : ∀ x ∈ body.names, Counterpart L (env.lookup x) (env'.lookup x)) :
    Counterpart L (Callable.fixpoint id name params body env)
      (.fixpoint id' name params body env') := by
  obtain ⟨hnamed, halong⟩ := bindings h
  obtain ⟨hil, hir⟩ := Link.names_of_ids hid
  refine ⟨_, ⟨⟨⟨_, hil⟩, fun x hx => (hnamed x hx).1⟩, rfl⟩,
    ⟨⟨_, hir⟩, fun x hx => (hnamed x hx).2⟩, ?_⟩
  exact congrArg₂ (Callable.fixpoint · name params body ·)
    ((Naming.idOf_eq hir).trans (Naming.idOf_eq hil).symm) halong.symm

theorem program (hid : L.ids id = Option.some id') (requires : CapabilitySet)
    (params : List String) (body : Routine) {env env' : Env}
    (h : ∀ x ∈ body.names, Counterpart L (env.lookup x) (env'.lookup x)) :
    Counterpart L (Callable.program id requires params body env)
      (.program id' requires params body env') := by
  obtain ⟨hnamed, halong⟩ := bindings h
  obtain ⟨hil, hir⟩ := Link.names_of_ids hid
  refine ⟨_, ⟨⟨⟨_, hil⟩, fun x hx => (hnamed x hx).1⟩, rfl⟩,
    ⟨⟨_, hir⟩, fun x hx => (hnamed x hx).2⟩, ?_⟩
  exact congrArg₂ (Callable.program · requires params body ·)
    ((Naming.idOf_eq hir).trans (Naming.idOf_eq hil).symm) halong.symm

theorem resumption (h : L.Calls id id') (k : Nat) :
    Counterpart L (Callable.resumption id k) (.resumption id' k) := by
  obtain ⟨hl, hr⟩ := Link.names_of_calls h
  exact ⟨.resumption (Nat.pair id id') k,
    ⟨⟨_, hl⟩, congrArg (Callable.resumption · k) (Naming.callOf_eq hl)⟩,
    ⟨_, hr⟩, congrArg (Callable.resumption · k) (Naming.callOf_eq hr)⟩

/-- The methods of custom handlers are counterparts if each of them is. -/
theorem methods {m m' : CustomMethods} (h : CustomMethods.Shape (Counterpart L) m m') :
    (m.Named L.left ∧ m'.Named L.right) ∧ m'.along L.right = m.along L.left := by
  have named {o o' : Option Value} (ho : Counterpart L o o') :
      (optionNamed L.left o ∧ optionNamed L.right o') ∧
        optionAlong L.right o' = optionAlong L.left o := by
    obtain ⟨x, hl, hr⟩ := ho
    exact ⟨⟨optionNamed_iff.mpr hl.1, optionNamed_iff.mpr hr.1⟩,
      (optionAlong_eq o').trans (hr.2.trans (hl.2.symm.trans (optionAlong_eq o).symm))⟩
  have hstart := named h.start
  have hstep := named h.step
  have hoffer := named h.offer
  have hfinish := named h.finish
  obtain ⟨hname, hbase, hkind, hcaps, -, -, -, -⟩ := h
  cases m
  cases m'
  dsimp only at hname hbase hkind hcaps
  subst hname hbase hkind hcaps
  refine ⟨⟨⟨hstart.1.1, hstep.1.1, hoffer.1.1, hfinish.1.1⟩,
    hstart.1.2, hstep.1.2, hoffer.1.2, hfinish.1.2⟩, ?_⟩
  simp only [CustomMethods.along, hstart.2, hstep.2, hoffer.2, hfinish.2]

/-- Handlers of one shape, with counterparts inside, are counterparts. -/
theorem ofShape (h : Handler.Shape (Counterpart L) (L.ids · = Option.some ·) a a') :
    Counterpart L a a' := by
  cases h with
  | collector ids =>
    obtain ⟨hl, hr⟩ := Link.names_of_ids ids
    exact ⟨_, ⟨⟨_, hl⟩, congrArg Handler.collector (Naming.idOf_eq hl)⟩,
      ⟨_, hr⟩, congrArg Handler.collector (Naming.idOf_eq hr)⟩
  | counter ids =>
    obtain ⟨hl, hr⟩ := Link.names_of_ids ids
    exact ⟨_, ⟨⟨_, hl⟩, congrArg Handler.counter (Naming.idOf_eq hl)⟩,
      ⟨_, hr⟩, congrArg Handler.counter (Naming.idOf_eq hr)⟩
  | stream source ids =>
    obtain ⟨hl, hr⟩ := Link.names_of_ids ids
    exact ⟨_, ⟨⟨_, hl⟩, congrArg (Handler.stream · source) (Naming.idOf_eq hl)⟩,
      ⟨_, hr⟩, congrArg (Handler.stream · source) (Naming.idOf_eq hr)⟩
  | @emitter id id' _ _ _ _ ids hlevel hcomponent =>
    obtain ⟨hl, hr⟩ := Link.names_of_ids ids
    obtain ⟨x, hx, hx'⟩ := hlevel
    obtain ⟨y, hy, hy'⟩ := hcomponent
    refine ⟨.emitter (Nat.pair id id') x y, ⟨⟨⟨_, hl⟩, hx.1, hy.1⟩, ?_⟩,
      ⟨⟨_, hr⟩, hx'.1, hy'.1⟩, ?_⟩
    · exact congr (congrArg₂ Handler.emitter (Naming.idOf_eq hl) hx.2) hy.2
    · exact congr (congrArg₂ Handler.emitter (Naming.idOf_eq hr) hx'.2) hy'.2
  | @transcript id id' _ _ ids hlines =>
    obtain ⟨hl, hr⟩ := Link.names_of_ids ids
    obtain ⟨xs, hx, hx'⟩ := hlines
    exact ⟨.transcript (Nat.pair id id') xs,
      ⟨⟨⟨_, hl⟩, named_values.mp hx.1⟩,
        congrArg₂ Handler.transcript (Naming.idOf_eq hl) ((along_values _).trans hx.2)⟩,
      ⟨⟨_, hr⟩, named_values.mp hx'.1⟩,
        congrArg₂ Handler.transcript (Naming.idOf_eq hr) ((along_values _).trans hx'.2)⟩
  | @store id id' _ _ ids hinitial =>
    obtain ⟨hl, hr⟩ := Link.names_of_ids ids
    obtain ⟨m, hx, hx'⟩ := hinitial
    exact ⟨.store (Nat.pair id id') m,
      ⟨⟨⟨_, hl⟩, named_entries.mp hx.1⟩,
        congrArg₂ Handler.store (Naming.idOf_eq hl) ((along_entries _).trans hx.2)⟩,
      ⟨⟨_, hr⟩, named_entries.mp hx'.1⟩,
        congrArg₂ Handler.store (Naming.idOf_eq hr) ((along_entries _).trans hx'.2)⟩
  | @recorder id id' journal _ _ ids hinner =>
    obtain ⟨hl, hr⟩ := Link.names_of_ids ids
    obtain ⟨x, hx, hx'⟩ := hinner
    exact ⟨.recorder (Nat.pair id id') journal x,
      ⟨⟨⟨_, hl⟩, hx.1⟩, congrArg₂ (Handler.recorder · journal ·) (Naming.idOf_eq hl) hx.2⟩,
      ⟨⟨_, hr⟩, hx'.1⟩, congrArg₂ (Handler.recorder · journal ·) (Naming.idOf_eq hr) hx'.2⟩
  | @pair id id' _ _ _ _ ids hfirst hsecond =>
    obtain ⟨hl, hr⟩ := Link.names_of_ids ids
    obtain ⟨x, hx, hx'⟩ := hfirst
    obtain ⟨y, hy, hy'⟩ := hsecond
    refine ⟨.pair (Nat.pair id id') x y, ⟨⟨⟨_, hl⟩, hx.1, hy.1⟩, ?_⟩, ⟨⟨_, hr⟩, hx'.1, hy'.1⟩, ?_⟩
    · rw [← hx.2, ← hy.2, ← Naming.idOf_eq hl]; rfl
    · rw [← hx'.2, ← hy'.2, ← Naming.idOf_eq hr]; rfl
  | @custom id id' _ _ ids hm =>
    obtain ⟨hl, hr⟩ := Link.names_of_ids ids
    obtain ⟨⟨hnamed, hnamed'⟩, halong⟩ := methods hm
    exact ⟨.custom (Nat.pair id id') _,
      ⟨⟨⟨_, hl⟩, hnamed⟩, congrArg₂ Handler.custom (Naming.idOf_eq hl) rfl⟩,
      ⟨⟨_, hr⟩, hnamed'⟩, congrArg₂ Handler.custom (Naming.idOf_eq hr) halong⟩

end

end Counterpart

end

end EffectHandlers
