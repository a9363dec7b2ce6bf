/-
EffectHandlers/Proofs/Logging.lean

Keeping log entries and passing them on.

The collector and the emitter interpret the same requests, one of them keeps
the messages in its state, the other one passes them on as events and counts
them.  The emitter can stand in for the collector wherever it stands, if its
level is known:

                  collector                  emitter
  state           the messages, newest first their number
  on an entry     a pair around the state    a record, and one more
  result          the messages, oldest first their number

The text of a record is the template of one empty field filled in with the
message (`fillTemplate_field`); so braces in a message are left alone.  The
messages are taken to have a text: the emitter fails on one that has none,
and the collector does not look at it.

Main result: the two agree, once per entry and in order
(`collector_agrees_with_emitter`).
-/
import EffectHandlers.Proofs.StandIn
import EffectHandlers.Value.Template
import Mathlib.Data.List.Induction

namespace EffectHandlers

open Handler

/-! ### Messages -/

/-- The message of a log entry. -/
def Request.message : Request → Value
  | .log m | .loudLog m _ => m
  | _ => .null

theorem Request.member_message {r : Request} (hk : r.isA .log = true) :
    r.member "message" = .ok r.message := by
  cases r with
  | log m => rfl
  | loudLog m v => rfl
  | _ => cases hk

/-- A message in an empty field is shown as it is. -/
theorem fillTemplate_field {m : Value} {text : String} (h : m.shown = .ok text) :
    fillTemplate "\x7b\x7d" [m] [] = .ok text := by
  have hlaid : layValue m [] = .ok text.toList := by
    rw [layValue, h]
    rfl
  have hfield (layout : List Char → Numbering → Except Failure (List Char × Numbering)) :
      fillPieces [m] [] layout [.field ⟨[], none, []⟩] .unsettled
        = layValue m [] >>= fun laid => pure (laid ++ [], .automatic 1) := rfl
  have hfilled : fillNested [m] [] 2 ['\x7b', '\x7d'] .unsettled
      = .ok (text.toList ++ [], .automatic 1) := by
    have hpieces : Text.pieces ['\x7b', '\x7d'] = ([.field ⟨[], none, []⟩], none) := rfl
    rw [fillNested, hpieces]
    simp only [hfield, hlaid]
    rfl
  have hopen : "\x7b\x7d".toList = ['\x7b', '\x7d'] := rfl
  rw [fillTemplate, hopen, hfilled, List.append_nil]
  exact congrArg Except.ok String.ofList_toList

/-! ### Steps -/

section

variable {call : Call} {e : Effect} {level component : Value} {name : String}

theorem collectorStep_entry (hk : e.request.isA .log = true) (log : Value) :
    collectorStep call log e
      = e.resume call .null >>= fun next => pure (addEntry e.request.message log, next) := by
  rw [collectorStep, Request.member_message hk]
  rfl

theorem emitterStep_entry (hk : e.request.isA .log = true) (hlevel : levelName level = .ok name)
    {text : String} (htext : e.request.message.shown = .ok text) (n : Nat) :
    emitterStep call level component (.int n) e
      = Action.emit (.emitted name component text) >>= fun _ =>
        e.resume call .null >>= fun next => pure (.int (n + 1), next) := by
  have hmessage (rest : String → Action (Value × Value)) :
      (Action.text e.request.message.shown >>= rest) = rest text := by
    rw [htext]
    rfl
  rw [emitterStep, Request.member_message hk, hlevel]
  exact hmessage _

end

/-! ### The log of a collector -/

/-- The state of a collector after some entries. -/
def logOf (es : List Effect) : Value :=
  es.foldl (fun log e => addEntry e.request.message log) .null

theorem logOf_concat (es : List Effect) (e : Effect) :
    logOf (es ++ [e]) = addEntry e.request.message (logOf es) := by
  rw [logOf, List.foldl_concat]
  rfl

theorem entries_logOf (es : List Effect) :
    entries (logOf es) = .ok (es.map (·.request.message)).reverse := by
  induction es using List.reverseRecOn with
  | nil => rfl
  | append_singleton es e ih =>
    rw [logOf_concat, addEntry, entries, ih]
    simp [Except.map]

theorem collectorFinish_logOf (es : List Effect) :
    collectorFinish (logOf es) = pure (.list (es.map (·.request.message))) := by
  have hreverse (newestFirst : List Value) : (Action.ofExcept (.ok newestFirst) >>= fun messages =>
      pure (Value.list messages.reverse)) = pure (.list newestFirst.reverse) := rfl
  rw [collectorFinish, entries_logOf, hreverse, List.reverse_reverse]

/-! ### The emitter in the place of the collector -/

/-- An emitter stands in for a collector, on messages with a text. -/
def emitterForCollector (s : Settings) (i j : Nat) (component : Value) (text : Value → String)
    {level : Value} {name : String} (hlevel : levelName level = .ok name) :
    StandIn none (Callable.meaning s) (.collector i) (.emitter j level component) where
  kind := .log
  fits e := e.request.message.shown = .ok (text e.request.message)
  fault := Eq
  before := logOf
  after es := .int es.length
  left _ := []
  record e := some (.emitted name component (text e.request.message))
  result es := .list (es.map (·.request.message))
  result' es := .int es.length
  fault_refl _ := rfl
  capabilities := rfl
  start := ⟨rfl, rfl⟩
  simple := ⟨.collector i, .emitter j level component⟩
  takes es e hk htext u _ := by
    refine .inl ⟨e.resume (Callable.meaning s) .null,
      { u with events := .emitted name component (text e.request.message) :: u.events },
      regular_resume .., rfl, rfl, rfl, ?_, ?_⟩
    · rw [Handler.offer, whenKind_of_kind hk, collectorStep_entry hk, bind_assoc, logOf_concat]
      rfl
    · rw [Handler.offer, whenKind_of_kind hk, emitterStep_entry hk hlevel htext]
      simp only [bind_assoc, pure_bind, List.length_append, List.length_singleton]
      rfl
  visible := by
    rintro e r ⟨⟩
    rfl
  finish {es} _ _ := by
    exact ⟨collectorFinish_logOf es, rfl⟩

/-- **Keeping entries and passing them on agree**, in every combination and for every chain, if the
messages have a text.  If the run with the collector gives a value, its output is the messages of the entries that came to it,
oldest first, and the run with the emitter gives the same value and other outputs and the number of
these messages.  If one of the runs fails, so does the other one, in the same way.  In any case the
emitter has made one record of each of these messages, in order, and nothing else is different for
an observer. -/
theorem collector_agrees_with_emitter {ι : Type} [DecidableEq ι] (s : Settings) (hs : ι → Handler)
    {t : Shape ι} (hn : t.leaves.Nodup) {slot : ι} (hslot : slot ∈ t.leaves) {i j : Nat}
    {level component : Value} {name : String} (hlevel : levelName level = .ok name)
    {A' B' : Handler} (hA : Arranged (Function.update hs slot (.collector i)) t A')
    (hB : Arranged (Function.update hs slot (.emitter j level component)) t B')
    (c : Chain) (w : World) {text : Value → String}
    (htext : ∀ e ∈ claimedInRun s (Callable.meaning s) c (Function.update hs slot (.collector i)) t
      slot A' w, e.request.message.shown = .ok (text e.request.message)) :
    let call := Callable.meaning s
    let claimed := claimedInRun s call c (Function.update hs slot (.collector i)) t slot A' w
    let messages := claimed.map (·.request.message)
    let records := messages.map fun m => Event.emitted name component (text m)
    (run s call c A' w).InStep Eq records.reverse w w
        (fun v v' _ _ => ∃ x o, o slot = .list messages ∧ v = .result x (t.nest o) ∧
          v' = .result x (t.nest (Function.update o slot (.int messages.length))))
        (run s call c B' w) ∧
      handledInRun s call c B' w = handledInRun s call c A' w ∧
      claimedInRun s call c (Function.update hs slot (.emitter j level component)) t slot B' w
        = claimed ∧
      (∀ e ∈ claimed, e.request.isA .log = true) ∧
      (∀ v w', run s call c A' w = .value v w' → claimed.Sublist (handledInRun s call c A' w)) ∧
      ∀ m ∈ messages, fillTemplate "\x7b\x7d" [m] [] = .ok (text m) := by
  intro call claimed messages records
  let D := emitterForCollector s i j component text hlevel
  obtain ⟨hstep, hhandled, hclaimed, hkind⟩ := D.run_inStep hA hB hn (c := c) (w := w) nofun rfl
    (fun p _ => clear_none p.act p.world) htext
  have hmessages : ∀ m ∈ messages, fillTemplate "\x7b\x7d" [m] [] = .ok (text m) :=
    List.forall_mem_map.mpr fun e he => fillTemplate_field (htext e he)
  refine ⟨?_, hhandled, hclaimed, hkind, fun v w' => claimedInRun_sublist hA hn, hmessages⟩
  have hrecords : D.records claimed = records.reverse := by
    simp [D, StandIn.records, emitterForCollector, records, messages]
  rw [← hrecords]
  refine hstep.mono fun v v' _ _ h => ?_
  obtain ⟨x, o, o', rfl, rfl, hdiffer⟩ := h
  refine ⟨x, o, hdiffer.first hslot, rfl, ?_⟩
  rw [hdiffer.nest_eq, List.length_map]
  rfl

/-- A loud entry with braces in its message. -/
def bracedEntry : Effect := (Effect.of (.loudLog (.text "\x7bx\x7d") (.int 9))).map .lift

/-- A collector, and a counter after it. -/
def collecting : Handler := .pair 3 (.collector 1) (.counter 9)

/-- The run against the collector, and what comes to it. -/
theorem run_bracedEntry (call : Call) (w : World) :
    let hs : Fin 2 → Handler := Function.update (fun _ => .counter 9) 0 (.collector 1)
    let t : Shape (Fin 2) := .pair (.leaf 0) (.leaf 1)
    let c : Chain := .suspended bracedEntry (.single ⟨"log"⟩)
    Arranged hs t collecting ∧
    (∃ w', run ⟨false, 5⟩ call c collecting w
      = .value (.result .null (.tuple [.list [.text "\x7bx\x7d"], .int 0])) w') ∧
    claimedInRun ⟨false, 5⟩ call c hs t 0 collecting w = [bracedEntry] := by
  intro hs t c
  have hA : Arranged hs t collecting := .pair 3 (.leaf 0) (.leaf 1)
  let σ : Fin 2 → Value := t.parts (.tuple [.null, .int 0])
  have hresume : bracedEntry.resume call .null = pure (.chain (.done .null ∅)) := by
    rw [bracedEntry, Effect.resume_map, Effect.resume_of]
    rfl
  have hoffer (w : World) : offerEach call hs σ bracedEntry t.leaves w
      = .value (some (0, .tuple [.text "\x7bx\x7d", .null], .chain (.done .null ∅))) w := by
    show offerEach call hs σ bracedEntry [0, 1] w = _
    rw [offerEach_cons]
    show ((whenKind .log bracedEntry (collectorStep call .null bracedEntry)) >>= _) w = _
    rw [whenKind_of_kind rfl, collectorStep_entry rfl, hresume]
    rfl
  have hdrive (w : World) : drive ⟨false, 5⟩ (collecting.offer call) 5 0 (t.nest σ) (.chain c) w
      = .value ⟨.null, .tuple [.tuple [.text "\x7bx\x7d", .null], .int 0], 1⟩ w := by
    rw [hA.drive_suspended (by decide), Action.bind_of_value (hoffer w)]
    rfl
  have hcheck : checkProvided c collecting w = .value () w := rfl
  obtain ⟨w₁, hopen⟩ : ∃ w₁, openRun call collecting w = .value (t.nest σ) w₁ := ⟨_, rfl⟩
  refine ⟨hA, ?_, ?_⟩
  · rw [run, runBy, Action.bind_of_value hcheck, Action.bind_of_value hopen,
      Action.bind_of_value (hdrive w₁)]
    exact ⟨_, rfl⟩
  · rw [claimedInRun, offersInRun, Action.bind_of_value hcheck, hopen]
    show claimedOf _ _ _ _ (offersBy _ _ hs t 5 0 σ _ w₁) = _
    have hslot : claimant call hs σ bracedEntry t.leaves w₁ = some 0 :=
      claimant_of_kind (show (hs 0).Simple .log from .collector 1) rfl [1] w₁
    rw [offersBy_taken (hoffer w₁) rfl, offersBy_ended (by simp), claimedOf_cons,
      Offering.claimant, hslot]
    rfl

/-- The message is kept by the one and passed on by the other as it is. -/
theorem collector_agrees_with_emitter_braces :
    let c : Chain := .suspended bracedEntry (.single ⟨"log"⟩)
    let emitting : Handler := .pair 4 (.emitter 2 defaultLevel defaultComponent) (.counter 9)
    let call := Callable.meaning ⟨false, 5⟩
    levelName defaultLevel = .ok "INFO" ∧
    ∃ w' u',
      run ⟨false, 5⟩ call c collecting (.initial "")
        = .value (.result .null (.tuple [.list [.text "\x7bx\x7d"], .int 0])) w' ∧
      run ⟨false, 5⟩ call c emitting (.initial "")
        = .value (.result .null (.tuple [.int 1, .int 0])) u' ∧
      World.Woven [.emitted "INFO" defaultComponent "\x7bx\x7d"] (.initial "") (.initial "")
        w' u' := by
  intro c emitting call
  have hlevel : levelName defaultLevel = .ok "INFO" := rfl
  obtain ⟨hA, ⟨w', hrun⟩, hclaimed⟩ := run_bracedEntry call (.initial "")
  have hB : Arranged (Function.update (fun _ => .counter 9) (0 : Fin 2)
      (.emitter 2 defaultLevel defaultComponent)) (.pair (.leaf 0) (.leaf 1)) emitting :=
    .pair 4 (.leaf 0) (.leaf 1)
  let text : Value → String := fun _ => "\x7bx\x7d"
  have htext : ∀ e ∈ claimedInRun ⟨false, 5⟩ call c
      (Function.update (fun _ => .counter 9) (0 : Fin 2) (.collector 1)) (.pair (.leaf 0) (.leaf 1))
      0 collecting (.initial ""), e.request.message.shown = .ok (text e.request.message) := by
    rw [hclaimed]
    exact List.forall_mem_singleton.mpr rfl
  obtain ⟨hstep, -⟩ := collector_agrees_with_emitter ⟨false, 5⟩ (fun _ => .counter 9)
    (by decide) (by decide) hlevel hA hB c (.initial "") htext
  rw [hclaimed, hrun] at hstep
  generalize hrun' : run ⟨false, 5⟩ call c emitting (.initial "") = o at hstep ⊢
  cases hstep with
  | value related woven =>
    obtain ⟨x, o, hslot, hresult, hresult'⟩ := related
    obtain ⟨rfl, ho⟩ := Value.result.inj hresult
    obtain ⟨-, ho⟩ := List.cons.inj (Value.tuple.inj ho)
    have ho₁ : Value.int 0 = o 1 := (List.cons.inj ho).1
    refine ⟨hlevel, w', _, hrun, congrArg₂ Outcome.value ?_ rfl, woven⟩
    rw [hresult']
    show Value.result _ (.tuple [.int 1, o 1]) = _
    rw [← ho₁]

end EffectHandlers
