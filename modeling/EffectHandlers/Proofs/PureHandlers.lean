/-
EffectHandlers/Proofs/PureHandlers.lean

Handlers that keep everything in their states.

A pure handler is a collector, a transcript, a store, a counter or a pair of
pure handlers.  All it has to go by is its state and the request, so in
states that are alike it takes requests that cannot be told apart alike: it
declines both, or answers both alike and is again in states that are alike
(`Handler.Pure.offer_bare`).  What is alike is said for every handler by the
shape of its states (`Sameness.States`).

The handlers are tail-resumptive, so this is all there is to an effect: it
goes on with the answer (`Handler.Pure.offer`).
-/
import EffectHandlers.Proofs.Behaviour
import EffectHandlers.Proofs.TailResumption

namespace EffectHandlers

variable {s : Settings}

/-! ### Requests -/

/-- Requests of one constructor with fields that are related. -/
inductive Request.Matches (R : Value → Value → Prop) : Request → Request → Prop
  | log {m m' : Value} (message : R m m') : Matches R (.log m) (.log m')
  | loudLog {m m' v v' : Value} (message : R m m') (volume : R v v') :
      Matches R (.loudLog m v) (.loudLog m' v')
  | writeLine {l l' : Value} (line : R l l') : Matches R (.writeLine l) (.writeLine l')
  | readLine : Matches R .readLine .readLine
  | beep : Matches R .beep .beep
  | get {k k' : Value} (key : R k k') : Matches R (.get k) (.get k')
  | put {k k' v v' : Value} (key : R k k') (value : R v v') : Matches R (.put k v) (.put k' v')
  | modify {k k' f f' : Value} (key : R k k') (function : R f f') :
      Matches R (.modify k f) (.modify k' f')
  | poke {k k' : Value} (key : R k k') : Matches R (.poke k) (.poke k')
  | tick {n n' : Value} (amount : R n n') : Matches R (.tick n) (.tick n')
  | custom {n c : String} {p p' : Value} (payload : R p p') :
      Matches R (.custom n c p) (.custom n c p')

/-- Requests of one kind are of one constructor. -/
theorem Request.Relates.matches {R : Value → Value → Prop} {r r' : Request}
    (h : r.Relates R r') : r.Matches R r' := by
  obtain ⟨hkind, hfields⟩ := h
  cases r <;> cases r' <;> first
    | cases hkind
      simp only [Request.fields, List.forall₂_cons, true_and, List.forall₂_nil_left_iff,
        and_true] at hfields
      constructor <;> simp [hfields]
    | cases hkind

/-- Both give values, which are related, or both the same failure. -/
inductive Except.Alike {α β : Type} (R : α → β → Prop) :
    Except Failure α → Except Failure β → Prop
  | ok {a : α} {b : β} (h : R a b) : Alike R (.ok a) (.ok b)
  | error (f : Failure) : Alike R (.error f) (.error f)

theorem Except.Alike.map {α β γ δ : Type} {R : α → β → Prop} {Q : γ → δ → Prop}
    {x : Except Failure α} {y : Except Failure β} {f : α → γ} {g : β → δ}
    (h : Except.Alike R x y) (hfg : ∀ a b, R a b → Q (f a) (g b)) :
    Except.Alike Q (x.map f) (y.map g) := by
  cases h with
  | ok h => exact .ok (hfg _ _ h)
  | error f => exact .error f

theorem Concurs.ofExcept {α β : Type} {R : α → β → Prop} {w u : Known s}
    {x : Except Failure α} {y : Except Failure β} (h : Except.Alike R x y) :
    Concurs (fun _ a _ b => R a b) w (Action.ofExcept x) u (Action.ofExcept y) := by
  cases h with
  | ok h => exact .ret h
  | error f => exact .fail (.refl f)

/-- Requests that are related have related members, or lack the same ones. -/
theorem Request.Relates.member {R : Value → Value → Prop} {r r' : Request} (h : r.Relates R r')
    (name : String) : Except.Alike R (r.member name) (r'.member name) := by
  obtain ⟨hkind, hfields⟩ := h
  unfold Request.member
  rw [hkind]
  generalize r.fields = fs at hfields ⊢
  generalize r'.fields = fs' at hfields ⊢
  induction hfields with
  | nil => exact .error _
  | @cons f f' fs fs' hf _ ih =>
    obtain ⟨hname, hvalue⟩ := hf
    rw [List.find?_cons, List.find?_cons, hname]
    cases f'.1 == name with
    | true => exact .ok hvalue
    | false => exact ih

/-! ### Pure handlers -/

/-- Two entries: their keys are equal and alike, and their values are alike. -/
structure Sameness.Entry (L : Sameness s) (w u : World) (e e' : Value × Value) : Prop where
  equal : e.1.SameKey e'.1
  key : L.same w e.1 u e'.1
  value : L.same w e.2 u e'.2

/-- Entries that are alike, one by one. -/
def Sameness.Entries (L : Sameness s) (w : World) (es : Mapping) (u : World) (es' : Mapping) :
    Prop :=
  List.Forall₂ (L.Entry w u) es es'

/-- The handlers that keep everything in their states.  The lines and entries that they are given
are alike in all worlds not earlier than `b`. -/
inductive Handler.Pure (L : Sameness s) (b : World) : Handler → Prop
  | collector (id : Nat) : Pure L b (.collector id)
  | transcript (id : Nat) (lines : List Value)
      (given : ∀ w u : World, b.Grows w → b.Grows u → L.All w lines u lines) :
      Pure L b (.transcript id lines)
  | store (id : Nat) (initial : Mapping)
      (given : ∀ w u : World, b.Grows w → b.Grows u → L.Entries w initial u initial) :
      Pure L b (.store id initial)
  | counter (id : Nat) : Pure L b (.counter id)
  | pair (id : Nat) {first second : Handler} (left : Pure L b first) (right : Pure L b second) :
      Pure L b (.pair id first second)

/-! ### States -/

namespace Sameness

/-- The states of collectors: nested pairs of messages that are alike. -/
inductive Logs (L : Sameness s) (w u : World) : Value → Value → Prop
  | nil : Logs L w u .null .null
  | entry {m m' log log' : Value} (message : L.same w m u m') (earlier : Logs L w u log log') :
      Logs L w u (.tuple [m, log]) (.tuple [m', log'])

/-- The states of transcripts: lines to read and lines written that are alike. -/
inductive Transcripts (L : Sameness s) (w u : World) : Value → Value → Prop
  | mk {ps qs as bs : List Value} (pending : L.All w ps u qs) (written : L.All w as u bs) :
      Transcripts L w u (.tuple [.tuple ps, .tuple as]) (.tuple [.tuple qs, .tuple bs])

/-- The states of stores. -/
inductive Stores (L : Sameness s) (w u : World) : Value → Value → Prop
  | mk {es es' : Mapping} (entries : L.Entries w es u es') :
      Stores L w u (.frozen es) (.frozen es')

/-- The states of pairs. -/
inductive Pairs (R R' : Value → Value → Prop) : Value → Value → Prop
  | mk {a a' b b' : Value} (first : R a a') (second : R' b b') :
      Pairs R R' (.tuple [a, b]) (.tuple [a', b'])

/-- States of a pure handler that are alike. -/
def States (L : Sameness s) (w u : World) : Handler → Value → Value → Prop
  | .collector _ => L.Logs w u
  | .transcript _ _ => L.Transcripts w u
  | .store _ _ => L.Stores w u
  | .counter _ => fun a b => ∃ n, a = .int n ∧ b = .int n
  | .pair _ first second => Pairs (States L w u first) (States L w u second)
  | _ => fun _ _ => False
termination_by structural h => h

/-- Results of a pure handler that are alike. -/
def Results (L : Sameness s) (w u : World) : Handler → Value → Value → Prop
  | .store _ _ => L.Stores w u
  | .pair _ first second => Pairs (Results L w u first) (Results L w u second)
  | _ => fun a b => L.same w a u b
termination_by structural h => h

variable {L : Sameness s} {b w w' u u' : World}

theorem Logs.grow {a b : Value} (h : L.Logs w u a b) (hw : w.Grows w') (hu : u.Grows u') :
    L.Logs w' u' a b := by
  induction h with
  | nil => exact .nil
  | entry message _ ih => exact .entry (L.grow message hw hu) ih

theorem Entries.grow {es es' : Mapping} (h : L.Entries w es u es') (hw : w.Grows w')
    (hu : u.Grows u') : L.Entries w' es u' es' :=
  h.imp fun _ _ h => ⟨h.equal, L.grow h.key hw hu, L.grow h.value hw hu⟩

theorem States.grow {h : Handler} (hp : h.Pure L b) {a a' : Value} (haa' : L.States w u h a a')
    (hw : w.Grows w') (hu : u.Grows u') : L.States w' u' h a a' := by
  induction hp generalizing a a' with
  | collector id => exact Logs.grow haa' hw hu
  | transcript id lines given =>
    cases haa' with
    | mk pending written => exact .mk (pending.grow hw hu) (written.grow hw hu)
  | store id initial given =>
    cases haa' with
    | mk entries => exact .mk (Entries.grow entries hw hu)
  | counter id => exact haa'
  | pair id left right ih ih' =>
    cases haa' with
    | mk first second => exact .mk (ih first) (ih' second)

theorem Results.grow {h : Handler} (hp : h.Pure L b) {a a' : Value}
    (haa' : L.Results w u h a a') (hw : w.Grows w') (hu : u.Grows u') :
    L.Results w' u' h a a' := by
  induction hp generalizing a a' with
  | collector id => exact L.grow haa' hw hu
  | transcript id lines given => exact L.grow haa' hw hu
  | store id initial given =>
    cases haa' with
    | mk entries => exact .mk (Entries.grow entries hw hu)
  | counter id => exact L.grow haa' hw hu
  | pair id left right ih ih' =>
    cases haa' with
    | mk first second => exact .mk (ih first) (ih' second)

/-- Collectors in states that are alike have entries that are alike. -/
theorem Logs.entries {log log' : Value} (h : L.Logs w u log log') :
    Except.Alike (fun as bs => L.All w as u bs) (Handler.entries log) (Handler.entries log') := by
  induction h with
  | nil => exact .ok .nil
  | entry message _ ih => exact ih.map fun as bs hall => .cons message hall

/-! ### Stores -/

/-- Keys that are equal are read alike. -/
theorem Entries.lookup {es es' : Mapping} {k k' : Value} (h : L.Entries w es u es')
    (hk : k.SameKey k') :
    L.same w ((Mapping.lookup es k).getD .null) u ((Mapping.lookup es' k').getD .null) := by
  induction h with
  | nil => exact L.null w u
  | @cons e e' es es' he _ ih =>
    rw [Mapping.lookup_cons, Mapping.lookup_cons, he.equal.same_eq hk]
    split
    · exact he.value
    · exact ih

/-- Keys that are equal are written alike. -/
theorem Entries.set {es es' : Mapping} {k k' v v' : Value} (h : L.Entries w es u es')
    (hk : k.SameKey k') (hkey : L.same w k u k') (hv : L.same w v u v') :
    L.Entries w (Mapping.set es k v) u (Mapping.set es' k' v') := by
  induction h with
  | nil => exact .cons ⟨hk, hkey, hv⟩ .nil
  | @cons e e' es es' he hes ih =>
    unfold Mapping.set
    rw [he.equal.same_eq hk]
    split
    · exact .cons ⟨he.equal, he.key, hv⟩ hes
    · exact .cons he ih

/-- Equal keys are read alike, or refused alike. -/
theorem Entries.readKey {es es' : Mapping} {k k' : Value} (h : L.Entries w es u es')
    (hk : k.SameKey k') :
    Except.Alike (fun a b => L.same w a u b) (Handler.readKey (.frozen es) k)
      (Handler.readKey (.frozen es') k') := by
  unfold Handler.readKey Handler.checkKey
  rw [hk.2]
  cases k'.keyFault? with
  | none => exact .ok (h.lookup hk)
  | some t => exact .error _

/-- Equal keys are written alike, or refused alike. -/
theorem Entries.writeKey {es es' : Mapping} {k k' v v' : Value} (h : L.Entries w es u es')
    (hk : k.SameKey k') (hkey : L.same w k u k') (hv : L.same w v u v') :
    Except.Alike (L.Stores w u) (Handler.writeKey (.frozen es) k v)
      (Handler.writeKey (.frozen es') k' v') := by
  unfold Handler.writeKey Handler.checkKey
  rw [hk.2]
  cases k'.keyFault? with
  | none => exact .ok (.mk (h.set hk hkey hv))
  | some t => exact .error _

end Sameness

/-! ### Steps on bare requests -/

/-- Two outcomes of an offer: both handled, in states that are alike and with values that are
related, or both declined. -/
inductive Takes (L : Sameness s) (h : Handler) (R : Known s → Value → Known s → Value → Prop)
    (w : Known s) : Value → Known s → Value → Prop
  | handled {a a' v v' : Value} {u : Known s} (state : L.States w u h a a') (next : R w v u v') :
      Takes L h R w (.handled a v) u (.handled a' v')
  | declined {u : Known s} : Takes L h R w .declined u .declined

/-- A step gives a state and an answer that are alike. -/
abbrev StepsAlike (L : Sameness s) (h : Handler) (w : Known s) (p : Value × Value) (u : Known s)
    (q : Value × Value) : Prop :=
  L.States w u h p.1 q.1 ∧ L.same w p.2 u q.2

section

variable {L : Sameness s} {b : World} {w u : Known s} {h : Handler} {r r' : Request}

theorem whenKind_concurs {kind : Kind} {x y : Action (Value × Value)} (hr : r.kind = r'.kind)
    (hstep : Concurs (StepsAlike L h) w x u y) :
    Concurs (Takes L h fun w v u v' => L.same w v u v') w (Handler.whenKind kind (.of r) x) u
      (Handler.whenKind kind (.of r') y) := by
  unfold Handler.whenKind
  rw [Effect.request_of, Effect.request_of, Request.isA, Request.isA, hr]
  split
  · refine hstep.bind fun w' p u' q _ _ hpq => ?_
    exact .ret (.handled hpq.1 hpq.2)
  · exact .ret .declined

/-- The end of a step on a bare request. -/
theorem answer_concurs {a a' v v' : Value} (hstate : L.States w u h a a')
    (hv : L.same w v u v') :
    Concurs (StepsAlike L h) w
      ((Effect.of r).resume (Callable.meaning s) v >>= fun v => pure (a, v)) u
      ((Effect.of r').resume (Callable.meaning s) v' >>= fun v => pure (a', v)) := by
  rw [Effect.resume_of, Effect.resume_of, pure_bind, pure_bind]
  exact .ret ⟨hstate, hv⟩

theorem collectorStep_concurs {id : Nat} {log log' : Value} (hlog : L.Logs w u log log')
    (hr : L.Asks w r u r') :
    Concurs (StepsAlike L (.collector id)) w
      (Handler.collectorStep (Callable.meaning s) log (.of r)) u
      (Handler.collectorStep (Callable.meaning s) log' (.of r')) := by
  refine (Concurs.ofExcept (hr.relates.member "message")).bind fun w' m u' m' hw hu hm => ?_
  refine answer_concurs ?_ (L.null w' u')
  exact .entry (L.grow hm hw.grows hu.grows) (hlog.grow hw.grows hu.grows)

theorem transcriptStep_concurs {id : Nat} {lines : List Value} {console console' : Value}
    (hc : L.Transcripts w u console console') (hr : L.Asks w r u r') :
    Concurs (StepsAlike L (.transcript id lines)) w
      (Handler.transcriptStep (Callable.meaning s) lines.length console (.of r)) u
      (Handler.transcriptStep (Callable.meaning s) lines.length console' (.of r')) := by
  cases hc with
  | @mk ps qs as bs pending written =>
    cases hr.relates.matches with
    | writeLine hline => exact answer_concurs (.mk pending (.cons hline written)) (L.null w u)
    | readLine =>
      cases pending with
      | nil => exact .fail (.refl _)
      | cons hline pending => exact answer_concurs (.mk pending written) hline
    | _ => exact .fail (.refl _)

theorem storeStep_concurs {id : Nat} {initial : Mapping} {state state' : Value}
    (hs : L.Stores w u state state') (hr : L.Asks w r u r') :
    Concurs (StepsAlike L (.store id initial)) w
      (Handler.storeStep (Callable.meaning s) state (.of r)) u
      (Handler.storeStep (Callable.meaning s) state' (.of r')) := by
  cases hs with
  | @mk es es' entries =>
    have hkeys := hr.keys
    cases hr.relates.matches with
    | get hkey =>
      cases hkeys with
      | cons hk =>
        refine (Concurs.ofExcept (entries.readKey hk)).bind fun w' v u' v' hw hu hv => ?_
        exact answer_concurs (.mk (entries.grow hw.grows hu.grows)) (L.grow hv hw.grows hu.grows)
    | put hkey hvalue =>
      cases hkeys with
      | cons hk =>
        have hwrite := Concurs.ofExcept (w := w) (u := u) (entries.writeKey hk hkey hvalue)
        refine hwrite.bind fun w' st u' st' hw hu hst => ?_
        cases hst with
        | mk entries =>
          exact answer_concurs (.mk (entries.grow hw.grows hu.grows)) (L.null w' u')
    | modify hkey hfunction =>
      cases hkeys with
      | cons hk =>
        refine (Concurs.ofExcept (entries.readKey hk)).bind fun w₁ v u₁ v' hw hu hv => ?_
        have hcall := Sameness.call_concurs (L.grow hfunction hw.grows hu.grows)
          (.cons (L.grow hv hw.grows hu.grows) .nil)
        refine hcall.bind fun w₂ x u₂ y hw₂ hu₂ hxy => ?_
        have hw₂ := hw.trans hw₂
        have hu₂ := hu.trans hu₂
        have hwrite := Concurs.ofExcept (w := w₂) (u := u₂)
          ((entries.grow hw₂.grows hu₂.grows).writeKey hk (L.grow hkey hw₂.grows hu₂.grows) hxy)
        refine hwrite.bind fun w₃ st u₃ st' hw₃ hu₃ hst => ?_
        cases hst with
        | mk entries =>
          exact answer_concurs (.mk (entries.grow hw₃.grows hu₃.grows))
            (L.grow hxy hw₃.grows hu₃.grows)
    | _ => exact .fail (.refl _)

theorem counterStep_concurs {id : Nat} {total total' : Value}
    (ht : L.States w u (.counter id) total total') (hr : L.Asks w r u r') :
    Concurs (StepsAlike L (.counter id)) w
      (Handler.counterStep (Callable.meaning s) total (.of r)) u
      (Handler.counterStep (Callable.meaning s) total' (.of r')) := by
  obtain ⟨n, rfl, rfl⟩ := ht
  refine (Concurs.ofExcept (hr.relates.member "amount")).bind fun w' m u' m' hw hu hm => ?_
  have hplus : Except.Alike (fun a b => ∃ n, a = Value.int n ∧ b = Value.int n)
      ((Value.int n).plus m) ((Value.int n).plus m') := by
    have hsum (m : Value) : (Value.int n).plus m
        = m.number?.elim (.error (.noSum "int" m.typeName)) fun k => .ok (.int (n + k)) := by
      cases m <;> rfl
    rw [hsum, hsum, L.number hm, L.typeName hm]
    cases m'.number? with
    | some k => exact .ok ⟨_, rfl, rfl⟩
    | none => exact .error _
  refine (Concurs.ofExcept hplus).bind fun w'' t u'' t' _ _ ht => ?_
  obtain ⟨k, rfl, rfl⟩ := ht
  exact answer_concurs ⟨k, rfl, rfl⟩ (L.int w'' u'' k)

/-! ### Pure handlers -/

namespace Handler.Pure

variable {a a' : Value}

/-- A combination of pure handlers is one. -/
theorem combine {hs : List Handler} (h : ∀ x ∈ hs, Handler.Pure L b x) {z z' : World} {c : Handler}
    (hc : Handler.combine hs z = .value c z') : c.Pure L b :=
  Handler.combine_elim (fun id _ _ left right => .pair id left right) h hc

/-- A pure handler takes requests that cannot be told apart alike. -/
theorem offer_bare (hp : h.Pure L b) (hstate : L.States w u h a a') (hr : L.Asks w r u r') :
    Concurs (Takes L h fun w v u v' => L.same w v u v') w
      (h.offer (Callable.meaning s) a (.of r)) u (h.offer (Callable.meaning s) a' (.of r')) := by
  have hkind := hr.relates.1
  induction hp generalizing w u a a' with
  | collector id => exact whenKind_concurs hkind (collectorStep_concurs hstate hr)
  | transcript id lines given => exact whenKind_concurs hkind (transcriptStep_concurs hstate hr)
  | store id initial given => exact whenKind_concurs hkind (storeStep_concurs hstate hr)
  | counter id => exact whenKind_concurs hkind (counterStep_concurs hstate hr)
  | @pair id first second left right ih ih' =>
    cases hstate with
    | @mk x x' y y' hfirst hsecond =>
      refine (ih hfirst hr).bind fun w₁ v u₁ v' hw hu hv => ?_
      have hsecond := hsecond.grow right hw.grows hu.grows
      cases hv with
      | handled hstate hanswer => exact .ret (.handled (.mk hstate hsecond) hanswer)
      | declined =>
        refine (ih' hsecond (hr.grow hw.grows hu.grows)).bind fun w₂ v u₂ v' hw₂ hu₂ hv => ?_
        cases hv with
        | handled hstate hanswer =>
          have hfirst := hfirst.grow left (hw.trans hw₂).grows (hu.trans hu₂).grows
          exact .ret (.handled (.mk hfirst hstate) hanswer)
        | declined => exact .ret .declined

/-- Pure handlers are tail-resumptive. -/
theorem tailResumptive (hp : h.Pure L b) (call : Call) : TailResumptive call (h.offer call) := by
  induction hp with
  | collector id => exact (Handler.Shipped.collector id).tailResumptive
  | transcript id lines => exact (Handler.Shipped.transcript id lines).tailResumptive
  | store id initial => exact (Handler.Shipped.store id initial).tailResumptive
  | counter id => exact (Handler.Shipped.counter id).tailResumptive
  | pair id left right ih ih' => exact Handler.tailResumptive_pair id ih ih'

/-- **A pure handler takes chains that behave alike alike**: whichever effect they wait for, it
declines both, or comes to states that are alike and chains that behave alike. -/
theorem offer (hp : h.Pure L b) (hstate : L.States w u h a a') {e e' : Effect}
    {r : CapabilitySet} (hc : L.Behaves w (.suspended e r) u (.suspended e' r)) :
    Concurs (Takes L h L.Behaves.Ends) w (h.offer (Callable.meaning s) a e) u
      (h.offer (Callable.meaning s) a' e') := by
  obtain ⟨-, hasks, hresume⟩ := hc.unfolds
  rw [hp.tailResumptive _ a e, hp.tailResumptive _ a' e']
  refine (hp.offer_bare hstate hasks).bind fun w' v u' v' hw hu hv => ?_
  cases hv with
  | declined => exact .ret .declined
  | handled hstate hanswer =>
    refine (hresume w' u' _ _ hw hu hanswer).bind fun w'' n u'' n' hw' hu' hn => ?_
    exact .ret (.handled (hstate.grow hp hw'.grows hu'.grows) hn)

/-- A pure handler starts in states that are alike. -/
theorem start (hp : h.Pure L b) (hw : b.Grows w) (hu : b.Grows u) :
    Concurs (fun w a u a' => L.States w u h a a') w (h.start (Callable.meaning s)) u
      (h.start (Callable.meaning s)) := by
  induction hp generalizing w u with
  | collector id => exact .ret .nil
  | transcript id lines given => exact .ret (.mk (given w u hw hu) .nil)
  | store id initial given => exact .ret (.mk (given w u hw hu))
  | counter id => exact .ret ⟨0, rfl, rfl⟩
  | pair id left right ih ih' =>
    refine (ih hw hu).bind fun w₁ x u₁ x' hw₁ hu₁ hx => ?_
    refine (ih' (hw.trans hw₁.grows) (hu.trans hu₁.grows)).bind fun w₂ y u₂ y' hw₂ hu₂ hy => ?_
    exact .ret (.mk (hx.grow left hw₂.grows hu₂.grows) hy)

/-- In states that are alike a pure handler has results that are alike. -/
theorem finish (hp : h.Pure L b) (hstate : L.States w u h a a') :
    Concurs (fun w a u a' => L.Results w u h a a') w (h.finish (Callable.meaning s) a) u
      (h.finish (Callable.meaning s) a') := by
  induction hp generalizing w u a a' with
  | collector id =>
    refine (Concurs.ofExcept (Sameness.Logs.entries hstate)).bind fun w' as u' bs hw hu hall => ?_
    exact .ret (L.list (List.forall₂_reverse_iff.mpr (hall.grow hw.grows hu.grows)))
  | transcript id lines given =>
    cases hstate with
    | mk pending written => exact .ret (L.list (List.forall₂_reverse_iff.mpr written))
  | store id initial given => exact .ret hstate
  | counter id =>
    obtain ⟨n, rfl, rfl⟩ := hstate
    exact .ret (L.int w u n)
  | pair id left right ih ih' =>
    cases hstate with
    | mk hfirst hsecond =>
      refine (ih hfirst).bind fun w₁ x u₁ x' hw₁ hu₁ hx => ?_
      refine (ih' (hsecond.grow right hw₁.grows hu₁.grows)).bind fun w₂ y u₂ y' hw₂ hu₂ hy => ?_
      exact .ret (.mk (hx.grow left hw₂.grows hu₂.grows) hy)

end Handler.Pure

/-! ### Runs -/

/-- Drives that ended with the same number of steps, with values that are alike and in states that
are alike. -/
structure Drive.Alike (L : Sameness s) (h : Handler) (w : Known s) (d : Drive) (u : Known s)
    (d' : Drive) : Prop where
  value : L.same w d.value u d'.value
  state : L.States w u h d.state d'.state
  steps : d.steps = d'.steps

/-- Results of runs with values and outputs that are alike. -/
inductive Sameness.Finishes (L : Sameness s) (h : Handler) (w u : World) : Value → Value → Prop
  | mk {v v' o o' : Value} (value : L.same w v u v') (output : L.Results w u h o o') :
      Finishes L h w u (.result v o) (.result v' o')

theorem note_concurs (w u : Known s) (severity severity' : Severity) (text text' : String) :
    Concurs (fun _ _ _ _ => True) w (Action.note severity text) u
      (Action.note severity' text') :=
  Concurs.of_alike (S := fun _ _ _ _ => True) (.value trivial) ((keeping s).note severity text)
    ((keeping s).note severity' text')

/-- Texts of which both are missing, for the same reason, or neither. -/
theorem text_concurs (w u : Known s) {x y : Except TextFault String}
    (h : ∀ f, x = .error f ↔ y = .error f) :
    Concurs (fun _ _ _ _ => True) w (Action.text x) u (Action.text y) := by
  cases x with
  | error f =>
    rw [(h f).mp rfl]
    exact .fail (.refl _)
  | ok text =>
    cases y with
    | error f => cases (h f).mpr rfl
    | ok text' => exact .ret trivial

theorem noted_concurs (w u : Known s) {e e' : Effect}
    (h : e.request.fault? = e'.request.fault?) :
    Concurs (fun _ _ _ _ => True) w e.noted u e'.noted :=
  text_concurs w u fun f => by rw [Effect.recordText_eq_error, Effect.recordText_eq_error, h]

theorem noteStep_concurs (w u : Known s) (steps : Nat) {e e' : Effect}
    (h : e.request.fault? = e'.request.fault?) :
    Concurs (fun _ _ _ _ => True) w (s.noteStep steps e) u (s.noteStep steps e') := by
  unfold Settings.noteStep
  split
  · exact (noted_concurs w u h).bind fun w' _ u' _ _ _ _ => note_concurs w' u' _ _ _ _
  · exact .ret trivial

/-- What is said of an effect that nobody takes depends on its kind only. -/
theorem unhandledEffect_alike {e e' : Effect} (h : L.Asks w e.request u e'.request) :
    (Failure.refused (.unhandledEffect e)).Alike (.refused (.unhandledEffect e')) := by
  have hkind : e.request.kind = e'.request.kind := h.relates.1
  have hcapability : e.capability = e'.capability := h.capability
  refine ⟨rfl, ?_⟩
  show Refusal.message (.unhandledEffect e) = Refusal.message (.unhandledEffect e')
  unfold Refusal.message
  dsimp only
  rw [hkind, hcapability]

theorem failUnhandled_concurs {α : Type} {R : Known s → α → Known s → α → Prop} (steps : Nat)
    {e e' : Effect} (h : L.Asks w e.request u e'.request) :
    Concurs R w (failUnhandled steps e) u (failUnhandled steps e') := by
  refine (noted_concurs w u h.fault).bind fun w' _ u' _ _ _ _ => ?_
  exact (note_concurs w' u' _ _ _ _).bind fun _ _ _ _ _ _ _ => .fail (unhandledEffect_alike h)

/-- What is no chain cannot be driven. -/
theorem drive_other {offer : Offer} {v : Value} (hv : ∀ c, v ≠ .chain c) {fuel steps : Nat}
    {state : Value} :
    drive s offer fuel steps state v = Action.fail (.notChainStep v.typeName) := by
  cases v with
  | chain c => exact absurd rfl (hv c)
  | _ => cases fuel <;> rfl

/-- A pure handler drives chains that behave alike alike. -/
theorem drive_concurs (hp : h.Pure L b) (fuel steps : Nat) {a a' v v' : Value}
    (hstate : L.States w u h a a') (hv : L.Behaves.Ends w v u v') :
    Concurs (Drive.Alike L h) w
      (drive s (h.offer (Callable.meaning s)) fuel steps a v) u
      (drive s (h.offer (Callable.meaning s)) fuel steps a' v') := by
  induction fuel generalizing w u steps a a' v v' with
  | zero =>
    cases hv with
    | other left right type =>
      rw [drive_other left, drive_other right, type]
      exact .fail (.refl _)
    | @chain c c' _ hc =>
      have hunfolds := hc.unfolds
      match c, c', hunfolds with
      | .done x r, .done y _, ⟨rfl, hxy⟩ => exact .ret ⟨hxy, hstate, rfl⟩
      | .suspended e r, .suspended e' _, ⟨rfl, _, _⟩ => exact .exhaust
  | succ fuel ih =>
    cases hv with
    | other left right type =>
      rw [drive_other left, drive_other right, type]
      exact .fail (.refl _)
    | @chain c c' _ hc =>
      have hunfolds := hc.unfolds
      match c, c', hunfolds with
      | .done x r, .done y _, ⟨rfl, hxy⟩ => exact .ret ⟨hxy, hstate, rfl⟩
      | .suspended e r, .suspended e' _, ⟨rfl, hasks, _⟩ =>
        rw [drive_suspended, drive_suspended]
        refine (hp.offer hstate hc).bind fun w₁ v u₁ v' hw hu hv => ?_
        cases hv with
        | declined => exact failUnhandled_concurs steps (hasks.grow hw.grows hu.grows)
        | handled hstate hnext =>
          refine (noteStep_concurs w₁ u₁ _ hasks.fault).bind fun w₂ _ u₂ _ hw₂ hu₂ _ => ?_
          exact ih (steps + 1) (hstate.grow hp hw₂.grows hu₂.grows)
            (Sameness.Ends.later hnext hw₂ hu₂)

/-- **Runs of chains that behave alike against a pure handler concur**: they come to results that
are alike, or fail alike. -/
theorem run_concurs (hp : h.Pure L b) (hw : b.Grows w) (hu : b.Grows u) {c c' : Chain}
    (hc : L.Behaves w c u c') :
    Concurs (fun w v u v' => L.Finishes h w u v v') w (run s (Callable.meaning s) c h) u
      (run s (Callable.meaning s) c' h) := by
  have hcheck : Concurs (fun _ _ _ _ => True) w (checkProvided c h) u (checkProvided c' h) := by
    unfold checkProvided
    rw [hc.requires]
    dsimp only
    split
    · exact .ret trivial
    · exact .fail (.refl _)
  refine hcheck.bind fun w₁ _ u₁ _ hw₁ hu₁ _ => ?_
  have hopen : Concurs (fun w a u a' => L.States w u h a a') w₁ (openRun (Callable.meaning s) h)
      u₁ (openRun (Callable.meaning s) h) := by
    refine (hp.start (hw.trans hw₁.grows) (hu.trans hu₁.grows)).bind ?_
    intro w₂ a u₂ a' _ _ hstate
    refine (note_concurs w₂ u₂ _ _ _ _).bind fun w₃ _ u₃ _ hw₃ hu₃ _ => ?_
    exact .ret (hstate.grow hp hw₃.grows hu₃.grows)
  refine hopen.bind fun w₂ a u₂ a' hw₂ hu₂ hstate => ?_
  have hc₂ := hc.later (hw₁.trans hw₂) (hu₁.trans hu₂)
  refine (drive_concurs hp s.maxSteps 0 hstate (.chain hc₂)).bind fun w₃ d u₃ d' _ _ hd => ?_
  refine (note_concurs w₃ u₃ _ _ _ _).bind fun w₄ _ u₄ _ hw₄ hu₄ _ => ?_
  refine (hp.finish (hd.state.grow hp hw₄.grows hu₄.grows)).bind fun w₅ o u₅ o' hw₅ hu₅ ho => ?_
  exact .ret (.mk (L.grow hd.value (hw₄.trans hw₅).grows (hu₄.trans hu₅).grows) ho)

end

end EffectHandlers
