/-
EffectHandlers/Proofs/Discipline/Handlers.lean

The walk through handlers and runs.

Every step of a handler, the three methods of every handler, the loop of a
run and a whole run respect a discipline if calls of functions do.  A run
depends on the settings; if they differ within the family, runs have to be
excluded by the regime.
-/
import EffectHandlers.Proofs.Discipline

namespace EffectHandlers

variable {ι : Type} {R : Regime} {D : Discipline ι R} {call : ι → Call}

/-- The two values of a step keep to a regime. -/
abbrev PairObeys (R : Regime) (p : Value × Value) : Prop := p.1.Obeys R ∧ p.2.Obeys R

/-! ### Parts of states -/

theorem Handler.obeys_entries {log : Value} (hlog : log.Obeys R) {vs : List Value}
    (h : Handler.entries log = .ok vs) : ∀ v ∈ vs, v.Obeys R := by
  -- One more entry in front of the entries of the rest.
  have step {message rest : Value} {vs : List Value} (hm : message.Obeys R)
      (ih : ∀ {vs}, Handler.entries rest = .ok vs → ∀ v ∈ vs, v.Obeys R)
      (h : (Handler.entries rest).map (message :: ·) = .ok vs) : ∀ v ∈ vs, v.Obeys R := by
    cases hrest : Handler.entries rest with
    | error f =>
      rw [hrest] at h
      cases h
    | ok ws =>
      rw [hrest] at h
      cases h
      simpa [hm] using ih hrest
  induction log using Handler.entries.induct generalizing vs with
  | case1 =>
    cases h
    simp
  | case2 m rest ih => exact step (by simp_all) (ih (by simp_all)) h
  | case3 m rest ih => exact step (by simp_all) (ih (by simp_all)) h
  | case4 m rest ih => exact step hlog.1 (ih hlog.2) h
  | case5 m _ rest _ ih => exact step (by simp_all) (ih (by simp_all)) h
  | case6 m _ rest _ ih => exact step (by simp_all) (ih (by simp_all)) h
  | case7 | case8 | case9 | case10 => simp_all [Handler.entries]

theorem Handler.obeys_nextLine {pending : Value} (hp : pending.Obeys R) {p : Value × Value}
    (h : Handler.nextLine pending = .ok (some p)) : PairObeys R p := by
  obtain ⟨x, rest⟩ := p
  unfold Handler.nextLine at h
  split at h
  case h_3 =>
    split at h
    · cases h
    · cases h
      simp [PairObeys, Value.char]
  case h_7 => split at h <;> cases h
  all_goals cases h
  all_goals simp_all [PairObeys]

theorem Handler.obeys_readKey {state : Value} (hs : state.Obeys R) {key v : Value}
    (h : Handler.readKey state key = .ok v) : v.Obeys R := by
  have found (m : Mapping) (hm : Mapping.Obeys R m) (k : Value) :
      ((Mapping.lookup m k).getD .null).Obeys R := by
    cases hlook : Mapping.lookup m k with
    | none => trivial
    | some v => exact Mapping.obeys_lookup hm hlook
  unfold Handler.readKey at h
  split at h
  case h_3 => cases h
  all_goals
    cases hk : Handler.checkKey key with
    | error f =>
      rw [hk] at h
      cases h
    | ok k =>
      rw [hk] at h
      cases h
      exact found _ (entriesObey_iff.mp hs) k

theorem Handler.obeys_writeKey {state key v : Value} (hs : state.Obeys R) (hk : key.Obeys R)
    (hv : v.Obeys R) {state' : Value} (h : Handler.writeKey state key v = .ok state') :
    state'.Obeys R := by
  unfold Handler.writeKey at h
  split at h
  case h_2 => cases h
  unfold Handler.checkKey at h
  split at h <;> cases h
  exact entriesObey_iff.mpr (Mapping.obeys_set (entriesObey_iff.mp hs) hk hv)

/-- Everything keeps to a regime where a drive ended. -/
abbrev Drive.Obeys (R : Regime) (d : Drive) : Prop := d.value.Obeys R ∧ d.state.Obeys R

namespace Discipline

/-! ### Steps -/

theorem member {r : Request} (hr : r.Obeys R) (name : String) :
    D.holds (Value.Obeys R) fun _ => Action.ofExcept (r.member name) :=
  D.ofExcept fun _ h => Request.obeys_member hr h

theorem plus {a b : Value} (ha : a.Obeys R) (hb : b.Obeys R) :
    D.holds (Value.Obeys R) fun _ => Action.ofExcept (a.plus b) :=
  D.ofExcept fun _ h => Value.obeys_plus ha hb h

theorem unpackTwo {v : Value} (hv : v.Obeys R) :
    D.holds (PairObeys R) fun _ => Action.ofExcept v.unpackTwo :=
  D.ofExcept fun _ h => Value.obeys_unpackTwo hv h

/-- A step that ends with the new state and the resumed effect. -/
theorem answered (hcall : D.Calls call) {state : Value} (hs : state.Obeys R) {e : Effect}
    (he : e.Obeys R) {answer : Value} (ha : answer.Obeys R) :
    D.holds (PairObeys R) fun i => e.resume (call i) answer >>= fun next => pure (state, next) :=
  D.map (resume hcall he ha) fun _ hnext => ⟨hs, hnext⟩

theorem collectorStep (hcall : D.Calls call) {log : Value} (hlog : log.Obeys R) {e : Effect}
    (he : e.Obeys R) : D.holds (PairObeys R) fun i => Handler.collectorStep (call i) log e := by
  refine D.bind (member (Effect.obeys_request he) "message") fun m hm => ?_
  have hadd : (Handler.addEntry m log).Obeys R := by simp [Handler.addEntry, hm, hlog]
  exact answered hcall hadd he trivial

theorem emitterStep (hcall : D.Calls call) (level component : Value) {count : Value}
    (hcount : count.Obeys R) {e : Effect} (he : e.Obeys R) :
    D.holds (PairObeys R) fun i => Handler.emitterStep (call i) level component count e := by
  refine D.bind (member (Effect.obeys_request he) "message") fun m _ => ?_
  refine D.bind (P := fun _ => True) (D.ofExcept fun _ _ => trivial) fun name _ => ?_
  refine D.bind (D.text _) fun _ _ => D.bind (D.emit _) fun _ _ => ?_
  exact D.bind (plus hcount trivial) fun count hcount => answered hcall hcount he trivial

theorem transcriptStep (hcall : D.Calls call) (given : Nat) {console : Value}
    (hconsole : console.Obeys R) {e : Effect} (he : e.Obeys R) :
    D.holds (PairObeys R) fun i => Handler.transcriptStep (call i) given console e := by
  refine D.bind (unpackTwo hconsole) fun p hp => ?_
  have hr := Effect.obeys_request he
  rcases e with ⟨r, ss⟩
  rcases r with m | ⟨m, v⟩ | line | _ | _ | k | ⟨k, v⟩ | ⟨k, f⟩ | k | n | ⟨n, c, v⟩
  case writeLine =>
    have hline : (Value.tuple [line]).Obeys R := by simpa using hr
    refine D.bind (plus hline hp.2) fun written hw => ?_
    exact answered hcall (by simp [hp.1, hw]) he trivial
  case readLine =>
    refine D.bind (P := fun l => ∀ q, l = some q → PairObeys R q)
      (D.ofExcept fun l hl q hq => Handler.obeys_nextLine hp.1 (hq ▸ hl)) fun l hl => ?_
    rcases l with _ | ⟨line, rest⟩
    · exact D.fail _ _
    · obtain ⟨hline, hrest⟩ := hl _ rfl
      exact answered hcall (by simp [hrest, hp.2]) he hline
  all_goals exact D.fail _ _

theorem streamStep (hcall : D.Calls call) (source : Nat) {count : Value}
    (hcount : count.Obeys R) {e : Effect} (he : e.Obeys R) :
    D.holds (PairObeys R) fun i => Handler.streamStep (call i) source count e := by
  have hr := Effect.obeys_request he
  rcases e with ⟨r, ss⟩
  rcases r with m | ⟨m, v⟩ | line | _ | _ | k | ⟨k, v⟩ | ⟨k, f⟩ | k | n | ⟨n, c, v⟩
  case writeLine =>
    refine D.bind (plus hr (b := .text "\n") trivial) fun full _ => ?_
    refine D.bind (D.text _) fun _ _ => D.bind (D.emit _) fun _ _ => ?_
    exact D.bind (plus hcount trivial) fun count hcount => answered hcall hcount he trivial
  case readLine =>
    refine D.bind (D.readLine source) fun line _ => ?_
    exact D.ite (D.fail _ _) (answered hcall hcount he trivial)
  all_goals exact D.fail _ _

theorem storeStep (hcall : D.Calls call) {state : Value} (hs : state.Obeys R) {e : Effect}
    (he : e.Obeys R) : D.holds (PairObeys R) fun i => Handler.storeStep (call i) state e := by
  have hr := Effect.obeys_request he
  have read (k : Value) :
      D.holds (Value.Obeys R) fun _ => Action.ofExcept (Handler.readKey state k) :=
    D.ofExcept fun _ h => Handler.obeys_readKey hs h
  have write {k v : Value} (hk : k.Obeys R) (hv : v.Obeys R) :
      D.holds (Value.Obeys R) fun _ => Action.ofExcept (Handler.writeKey state k v) :=
    D.ofExcept fun _ h => Handler.obeys_writeKey hs hk hv h
  rcases e with ⟨r, ss⟩
  rcases r with m | ⟨m, v⟩ | line | _ | _ | k | ⟨k, v⟩ | ⟨k, f⟩ | k | n | ⟨n, c, v⟩
  case get => exact D.bind (read k) fun v hv => answered hcall hs he hv
  case put => exact D.bind (write hr.1 hr.2) fun state hs => answered hcall hs he trivial
  case modify =>
    refine D.bind (read k) fun old hold => ?_
    refine D.bind (callValue hcall hr.2 (by simpa using hold)) fun new hnew => ?_
    exact D.bind (write hr.1 hnew) fun state hs => answered hcall hs he hnew
  all_goals exact D.fail _ _

theorem counterStep (hcall : D.Calls call) {total : Value} (ht : total.Obeys R) {e : Effect}
    (he : e.Obeys R) : D.holds (PairObeys R) fun i => Handler.counterStep (call i) total e := by
  refine D.bind (member (Effect.obeys_request he) "amount") fun amount hamount => ?_
  exact D.bind (plus ht hamount) fun total ht => answered hcall ht he ht

/-! ### Bases -/

theorem collectorFinish {log : Value} (hlog : log.Obeys R) :
    D.holds (Value.Obeys R) fun _ => Handler.collectorFinish log := by
  refine D.bind (P := fun vs => ∀ v ∈ vs, v.Obeys R)
    (D.ofExcept fun _ h => Handler.obeys_entries hlog h) fun vs hvs => ?_
  exact D.ret (by simpa using hvs)

theorem transcriptFinish {console : Value} (hconsole : console.Obeys R) :
    D.holds (Value.Obeys R) fun _ => Handler.transcriptFinish console := by
  refine D.bind (unpackTwo hconsole) fun p hp => ?_
  refine D.bind (P := fun vs => ∀ v ∈ vs, v.Obeys R)
    (D.ofExcept fun _ h => Value.obeys_reversed hp.2 h) fun vs hvs => ?_
  exact D.ret (by simpa using hvs)

theorem baseStart (b : HandlerBase) : D.holds (Value.Obeys R) fun _ => b.start := by
  cases b
  case plain | simple => exact D.fail _ _
  case collector => exact D.ret trivial
  case transcript | store => exact D.ret (by simp [Handler.transcriptStart])

theorem baseStep (hcall : D.Calls call) (b : HandlerBase) {state : Value} (hs : state.Obeys R)
    {e : Effect} (he : e.Obeys R) :
    D.holds (PairObeys R) fun i => b.step (call i) state e := by
  cases b
  case plain | simple => exact D.fail _ _
  case collector => exact collectorStep hcall hs he
  case transcript => exact transcriptStep hcall 0 hs he
  case store => exact storeStep hcall hs he

theorem baseFinish (b : HandlerBase) {state : Value} (hs : state.Obeys R) :
    D.holds (Value.Obeys R) fun _ => b.finish state := by
  cases b
  case plain | simple => exact D.fail _ _
  case collector => exact collectorFinish hs
  case transcript => exact transcriptFinish hs
  case store => exact D.ret hs

/-! ### Offers -/

theorem whenKind (kind : Kind) (e : Effect) {step : ι → Action (Value × Value)}
    (h : D.holds (PairObeys R) step) :
    D.holds (Value.Obeys R) fun i => Handler.whenKind kind e (step i) := by
  unfold Handler.whenKind
  split
  · exact D.map h fun p hp => hp
  · exact D.ret trivial

theorem customOffer (hcall : D.Calls call) {m : CustomMethods} (hm : m.Obeys R) {state : Value}
    (hs : state.Obeys R) {e : Effect} (he : e.Obeys R) :
    D.holds (Value.Obeys R) fun i => Handler.customOffer (call i) m state e := by
  obtain ⟨name, base, kind, capabilities, start, step, offer, finish⟩ := m
  obtain ⟨-, hstep, hoffer, -⟩ := hm
  have hargs : ∀ a ∈ [state, Value.effect e], a.Obeys R := by simp [hs, he]
  have hcustom : D.holds (PairObeys R) fun i => Handler.customStep (call i)
      ⟨name, base, kind, capabilities, start, step, offer, finish⟩ state e := by
    rcases step with _ | f
    · exact baseStep hcall base hs he
    · exact D.bind (callValue hcall hstep hargs) fun v hv => unpackTwo hv
  unfold Handler.customOffer
  rcases offer with _ | f
  · simp only
    split
    · split
      · exact whenKind _ e hcustom
      · exact D.fail _ _
    · exact D.fail _ _
  · exact callValue hcall hoffer hargs

/-! ### The three methods -/

theorem start (hcall : D.Calls call) :
    ∀ h : Handler, h.Obeys R → D.holds (Value.Obeys R) fun i => h.start (call i)
  | .collector _, _ | .emitter _ _ _, _ | .stream _ _, _ | .counter _, _ => D.ret trivial
  | .transcript _ _, hh => D.ret (by simpa [Handler.transcriptStart] using hh)
  | .store _ _, hh => D.ret hh
  | .recorder _ journal inner, hh =>
    D.bind (D.record journal "start" trivial) fun _ _ => start hcall inner hh
  | .pair _ first second, hh =>
    D.bind (start hcall first hh.1) fun _ hs =>
      D.map (start hcall second hh.2) fun _ ht => by simp [hs, ht]
  | .custom _ ⟨_, base, _, _, none, _, _, _⟩, _ => baseStart base
  | .custom _ ⟨_, _, _, _, some _, _, _, _⟩, hh => callValue hcall hh.1 (by simp)
termination_by structural h => h

theorem offer (hcall : D.Calls call) : ∀ (h : Handler) {state : Value} {e : Effect},
    h.Obeys R → state.Obeys R → e.Obeys R →
    D.holds (Value.Obeys R) fun i => h.offer (call i) state e
  | .collector _, _, e, _, hs, he => whenKind .log e (collectorStep hcall hs he)
  | .emitter _ level component, _, e, _, hs, he =>
    whenKind .log e (emitterStep hcall level component hs he)
  | .transcript _ lines, _, e, _, hs, he =>
    whenKind .console e (transcriptStep hcall lines.length hs he)
  | .stream _ source, _, e, _, hs, he => whenKind .console e (streamStep hcall source hs he)
  | .store _ _, _, e, _, hs, he => whenKind .state e (storeStep hcall hs he)
  | .counter _, _, e, _, hs, he => whenKind .tick e (counterStep hcall hs he)
  | .recorder _ journal inner, _, e, hh, hs, he =>
    D.bind (D.record journal "try_step" (v := .effect e) he) fun _ _ =>
      offer hcall inner hh hs he
  | .pair _ first second, _, _, hh, hs, he => by
    refine D.bind (unpackTwo hs) fun p hp => D.bind (offer hcall first hh.1 hp.1 he)
      fun v hv => ?_
    -- Only an outcome that is handled ends the offer here.
    cases v
    case handled => exact D.ret (by simpa [hp.2] using hv)
    all_goals
      refine D.bind (offer hcall second hh.2 hp.2 he) fun v hv => ?_
      cases v
      case handled => exact D.ret (by simpa [hp.1] using hv)
      all_goals exact D.ret trivial
  | .custom _ _, _, _, hh, hs, he => customOffer hcall hh hs he
termination_by structural h => h

theorem finish (hcall : D.Calls call) : ∀ (h : Handler) {state : Value},
    h.Obeys R → state.Obeys R → D.holds (Value.Obeys R) fun i => h.finish (call i) state
  | .collector _, _, _, hs => collectorFinish hs
  | .transcript _ _, _, _, hs => transcriptFinish hs
  | .emitter _ _ _, _, _, hs | .stream _ _, _, _, hs | .store _ _, _, _, hs
  | .counter _, _, _, hs => D.ret hs
  | .recorder _ journal inner, state, hh, hs =>
    D.bind (D.record journal "finish" hs) fun _ _ => finish hcall inner hh hs
  | .pair _ first second, _, hh, hs =>
    D.bind (unpackTwo hs) fun _ hp => D.bind (finish hcall first hh.1 hp.1) fun _ ha =>
      D.map (finish hcall second hh.2 hp.2) fun _ hb => by simp [ha, hb]
  | .custom _ ⟨_, base, _, _, _, _, _, none⟩, _, _, hs => baseFinish base hs
  | .custom _ ⟨_, _, _, _, _, _, _, some _⟩, _, hh, hs =>
    callValue hcall hh.2.2.2 (by simpa using hs)
termination_by structural h => h

/-! ### Combinations -/

theorem pairOf {first second : Handler} (h₁ : first.Obeys R) (h₂ : second.Obeys R) :
    D.holds (Handler.Obeys R) fun _ => Handler.pairOf first second := by
  unfold Handler.pairOf
  simp only
  split
  · exact D.map D.fresh fun _ _ => ⟨h₁, h₂⟩
  · exact D.fail _ _

theorem nest {hs : List Handler} (hhs : ∀ h ∈ hs, h.Obeys R) :
    D.holds (Handler.Obeys R) fun _ => Handler.nest hs := by
  induction hs with
  | nil => exact D.fail _ _
  | cons h hs ih =>
    have hh : h.Obeys R := hhs h List.mem_cons_self
    rcases hs with _ | ⟨h', hs⟩
    · exact D.ret hh
    · exact D.bind (ih fun h hm => hhs h (List.mem_cons_of_mem _ hm)) fun _ hn => pairOf hh hn

theorem combine {hs : List Handler} (hhs : ∀ h ∈ hs, h.Obeys R) :
    D.holds (Handler.Obeys R) fun _ => Handler.combine hs :=
  D.bind (nest hhs) fun _ hn => D.map (D.note _ _) fun _ _ => hn

/-! ### Runs -/

theorem checkProvided (c : Chain) (h : Handler) :
    D.holds (fun _ => True) fun _ => EffectHandlers.checkProvided c h := by
  unfold EffectHandlers.checkProvided
  simp only
  split
  · exact D.ret trivial
  · exact D.fail _ _

theorem noteStep (s : Settings) (step : Nat) (e : Effect) :
    D.holds (fun _ => True) fun _ => s.noteStep step e :=
  D.ite (D.bind (D.text _) fun _ _ => D.note _ _) (D.ret trivial)

theorem failUnhandled {α : Type} {P : α → Prop} (steps : Nat) (e : Effect) :
    D.holds P fun _ => EffectHandlers.failUnhandled steps e :=
  D.bind (D.text _) fun _ _ => D.bind (D.note _ _) fun _ _ => D.fail _ _

/-- Offers to a handler respect a discipline. -/
def Offers (D : Discipline ι R) (offer : ι → Offer) : Prop :=
  ∀ state e, state.Obeys R → e.Obeys R → D.holds (Value.Obeys R) fun i => offer i state e

theorem drive (s : Settings) {offer : ι → Offer} (hoffer : Offers D offer) (fuel steps : Nat)
    {state next : Value} (hs : state.Obeys R) (hn : next.Obeys R) :
    D.holds (Drive.Obeys R) fun i => EffectHandlers.drive s (offer i) fuel steps state next := by
  induction fuel generalizing steps state next with
  | zero =>
    cases next
    case chain c =>
      rcases c with ⟨v, r⟩ | ⟨e, r⟩
      · exact D.ret ⟨hn, hs⟩
      · exact D.exhaust _
    all_goals exact D.fail _ _
  | succ fuel ih =>
    cases next
    case chain c =>
      rcases c with ⟨v, r⟩ | ⟨e, r⟩
      · exact D.ret ⟨hn, hs⟩
      · refine D.bind (hoffer state e hs hn.2) fun v hv => ?_
        cases v
        case handled state next =>
          exact D.bind (noteStep s _ e) fun _ _ => ih (steps + 1) hv.1 hv.2
        all_goals exact failUnhandled steps e
    all_goals exact D.fail _ _

theorem openRun (hcall : D.Calls call) {h : Handler} (hh : h.Obeys R) :
    D.holds (Value.Obeys R) fun i => EffectHandlers.openRun (call i) h :=
  D.bind (start hcall h hh) fun _ hs => D.map (D.note _ _) fun _ _ => hs

theorem closeRun (hcall : D.Calls call) {h : Handler} (hh : h.Obeys R) {d : Drive}
    (hd : d.Obeys R) : D.holds (Value.Obeys R) fun i => EffectHandlers.closeRun (call i) h d :=
  D.bind (D.note _ _) fun _ _ => D.map (finish hcall h hh hd.2) fun _ ho => ⟨hd.1, ho⟩

theorem runBy (s : Settings) (hcall : D.Calls call) {offer : ι → Offer}
    (hoffer : Offers D offer) {c : Chain} (hc : c.Obeys R) {h : Handler} (hh : h.Obeys R) :
    D.holds (Value.Obeys R) fun i => EffectHandlers.runBy s (call i) c h (offer i) :=
  D.bind (checkProvided c h) fun _ _ => D.bind (openRun hcall hh) fun _ hs =>
    D.bind (drive s hoffer s.maxSteps 0 hs hc) fun _ hd => closeRun hcall hh hd

theorem run (s : Settings) (hcall : D.Calls call) {c : Chain} (hc : c.Obeys R) {h : Handler}
    (hh : h.Obeys R) : D.holds (Value.Obeys R) fun i => EffectHandlers.run s (call i) c h :=
  runBy s hcall (fun _ _ hs he => offer hcall h hh hs he) hc hh

end Discipline

end EffectHandlers
