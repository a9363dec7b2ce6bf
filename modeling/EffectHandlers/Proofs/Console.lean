/-
EffectHandlers/Proofs/Console.lean

A scripted console and a console on a stream.

The transcript answers from lines that it was given and keeps what is
written in its state.  The stream handler reads lines from a stream, writes
them out as events and counts them.  If the stream holds the lines that the
transcript was given, each of them followed by a line feed, then the stream
handler can stand in for the transcript wherever it stands:

                  transcript                  stream
  state           lines to read, and the      the number of lines written
                  lines written
  on a read       the next line               the next line of the stream
  on a write      one more line written       a record, and one more
  nothing left    a failure with the number   a failure without a number
                  of lines given
  result          the lines written           their number

The lines have no line feeds and no carriage returns, so a line is found
again in the stream (`splitLine_line`, `trimLineEnd_line`), and an empty line
is not the end of the stream.

Main result: the two agree (`transcript_agrees_with_stream`).
-/
import EffectHandlers.Proofs.StandIn

namespace EffectHandlers

open Handler

/-! ### Lines in a stream -/

/-- Lines as they stand in a stream: each one followed by a line feed. -/
def typed (lines : List String) : List Char := lines.flatMap fun l => l.toList ++ ['\n']

/-- A line has no line feed and no carriage return in it. -/
def IsLine (l : String) : Prop := ¬ '\n' ∈ l.toList ∧ ¬ '\r' ∈ l.toList

theorem splitLine_line {cs : List Char} (h : ¬ '\n' ∈ cs) (rest : List Char) :
    splitLine (cs ++ '\n' :: rest) = (cs ++ ['\n'], rest) := by
  induction cs with
  | nil => rfl
  | cons c cs ih =>
    obtain ⟨hc, hcs⟩ := not_or.mp (List.mem_cons.not.mp h)
    rw [List.cons_append, splitLine, if_neg (Ne.symm hc), ih hcs]
    rfl

theorem trimLineEnd_line {cs : List Char} (h : ¬ '\n' ∈ cs) (h' : ¬ '\r' ∈ cs) :
    trimLineEnd (cs ++ ['\n']) = cs := by
  have hlast : cs.reverse.dropWhile (fun c => c == '\r' || c == '\n') = cs.reverse := by
    cases hcs : cs.reverse with
    | nil => rfl
    | cons c rest =>
      have hmem : c ∈ cs := List.mem_reverse.mp (hcs ▸ List.mem_cons_self)
      have hn : c ≠ '\n' := fun hc => h (hc ▸ hmem)
      have hr : c ≠ '\r' := fun hc => h' (hc ▸ hmem)
      simp [hn, hr]
  rw [trimLineEnd, List.reverse_append, List.reverse_singleton, List.singleton_append,
    List.dropWhile_cons_of_pos (by decide), hlast, List.reverse_reverse]

theorem World.lt_of_contents {k : Nat} {w : World} {l : String} {rest : List String}
    (h : w.contents k = typed (l :: rest)) : k < w.sources.size := by
  by_contra hk
  have hnone : w.contents k = [] := by simp [World.contents, Nat.le_of_not_lt hk]
  rw [hnone] at h
  simp [typed] at h

/-! ### Requests that were answered -/

/-- The text of a request to write a line. -/
def Request.text? : Request → Option String
  | .writeLine (.text t) => some t
  | _ => none

/-- The lines that some requests wrote. -/
def written (es : List Effect) : List String := es.filterMap (·.request.text?)

/-- The number of lines that some requests read. -/
def linesRead (es : List Effect) : Nat := es.countP fun e => e.request.kind == .readLine

/-- The state of a transcript after some requests. -/
def script (lines : List String) (es : List Effect) : Value :=
  .tuple [.tuple ((lines.drop (linesRead es)).map .text),
    .tuple ((written es).reverse.map .text)]

theorem transcriptFinish_script (lines : List String) (es : List Effect) :
    transcriptFinish (script lines es) = pure (.list ((written es).map .text)) := by
  rw [script, transcriptFinish_eq, List.map_reverse, List.reverse_reverse]

/-! ### Steps -/

section

variable {call : Call} {e : Effect} {lines : List String} {es : List Effect}

theorem transcriptStep_write {t : String} (he : e.request = .writeLine (.text t)) (given : Nat) :
    transcriptStep call given (script lines es) e
      = e.resume call .null >>= fun next => pure (script lines (es ++ [e]), next) := by
  have hread : linesRead (es ++ [e]) = linesRead es := by simp [linesRead, he, Request.kind]
  have hwritten : written (es ++ [e]) = written es ++ [t] := by simp [written, Request.text?, he]
  rw [script, transcriptStep_of_write he, script, hread, hwritten, List.reverse_append]
  rfl

theorem transcriptStep_read (he : e.request = .readLine) (given : Nat) {l : String}
    {rest : List String} (hl : lines.drop (linesRead es) = l :: rest) :
    transcriptStep call given (script lines es) e
      = e.resume call (.text l) >>= fun next => pure (script lines (es ++ [e]), next) := by
  have hread : lines.drop (linesRead (es ++ [e])) = rest := by
    have hone : linesRead (es ++ [e]) = linesRead es + 1 := by simp [linesRead, he, Request.kind]
    rw [hone, ← List.drop_drop, hl]
    rfl
  have hwritten : written (es ++ [e]) = written es := by simp [written, Request.text?, he]
  rw [script, hl, script, hread, hwritten]
  exact transcriptStep_of_line he given _ _ _

theorem transcriptStep_exhausted (he : e.request = .readLine) (given : Nat)
    (hl : lines.drop (linesRead es) = []) :
    transcriptStep call given (script lines es) e
      = Action.fail (.refused (.consoleInputExhausted (some given))) := by
  rw [script, hl]
  exact transcriptStep_of_none he given _

theorem streamStep_write {t : String} (he : e.request = .writeLine (.text t)) (k n : Nat) :
    streamStep call k (.int n) e = Action.emit (.wrote (t ++ "\n")) >>= fun _ =>
      e.resume call .null >>= fun next => pure (.int (n + 1), next) := by
  rw [streamStep, he]
  rfl

theorem streamStep_read (he : e.request = .readLine) {k : Nat} {l : String} (hl : IsLine l)
    {rest : List String} {w : World} (hw : w.contents k = typed (l :: rest)) (count : Value) :
    streamStep call k count e w
      = (e.resume call (.text l) >>= fun next => pure (count, next))
        (w.withSource k (typed rest)) := by
  have hsplit : readLine k w = .value (l.toList ++ ['\n']) (w.withSource k (typed rest)) := by
    have hline : splitLine (w.contents k) = (l.toList ++ ['\n'], typed rest) := by
      rw [hw, ← splitLine_line hl.1]
      simp [typed]
    show Outcome.value (splitLine (w.contents k)).1
      (w.withSource k (splitLine (w.contents k)).2) = _
    rw [hline]
  have hnonempty : (l.toList ++ ['\n']).isEmpty = false := by simp
  rw [streamStep, he]
  show (readLine k >>= _) w = _
  rw [Action.bind_of_value hsplit, hnonempty, trimLineEnd_line hl.1 hl.2, String.ofList_toList]
  rfl

theorem streamStep_exhausted (he : e.request = .readLine) {k : Nat} {w : World}
    (hw : w.contents k = []) (count : Value) :
    streamStep call k count e w
      = .failed (.refused (.consoleInputExhausted none)) (w.withSource k []) := by
  have hsplit : readLine k w = .value [] (w.withSource k []) := by
    show Outcome.value (splitLine (w.contents k)).1
      (w.withSource k (splitLine (w.contents k)).2) = _
    rw [hw]
    rfl
  rw [streamStep, he]
  show (readLine k >>= _) w = _
  rw [Action.bind_of_value hsplit]
  rfl

end

/-! ### The stream in the place of the transcript -/

/-- What a request to write a line writes is a text. -/
def Request.WritesText (r : Request) : Prop := ∀ v, r = .writeLine v → ∃ t, v = .text t

/-- The same failure, or that nothing is left to read, with and without the number of lines
given. -/
def SameOrExhausted (given : Nat) (f f' : Failure) : Prop :=
  f' = f ∨ f = .refused (.consoleInputExhausted (some given)) ∧
    f' = .refused (.consoleInputExhausted none)

/-- What is added to the events for a console request. -/
def Request.line? (r : Request) : Option Event := r.text?.map fun t => .wrote (t ++ "\n")

/-- A stream stands in for a transcript. -/
def streamForTranscript (s : Settings) (i j k : Nat) {lines : List String}
    (hlines : ∀ l ∈ lines, IsLine l) :
    StandIn (some k) (Callable.meaning s) (.transcript i (lines.map .text)) (.stream j k) where
  kind := .console
  fits e := e.request.WritesText
  fault := SameOrExhausted lines.length
  before := script lines
  after es := .int (written es).length
  left es := typed (lines.drop (linesRead es))
  record e := e.request.line?
  result es := .list ((written es).map .text)
  result' es := .int (written es).length
  fault_refl _ := .inl rfl
  capabilities := rfl
  start := ⟨rfl, rfl⟩
  simple := ⟨.transcript i _, .stream j k⟩
  takes es e hk he u hu := by
    have hoffer : (Handler.transcript i (lines.map .text)).offer (Callable.meaning s)
        (script lines es) e = transcriptStep (Callable.meaning s) lines.length (script lines es) e
          >>= fun p => pure (.handled p.1 p.2) := by
      rw [Handler.offer, whenKind_of_kind hk, List.length_map]
    have hoffer' : (Handler.stream j k).offer (Callable.meaning s) (.int (written es).length) e
        = streamStep (Callable.meaning s) k (.int (written es).length) e
          >>= fun p => pure (.handled p.1 p.2) := by
      rw [Handler.offer, whenKind_of_kind hk]
    rw [hoffer, hoffer']
    cases hrequest : e.request with
    | writeLine v =>
      obtain ⟨t, rfl⟩ := he v hrequest
      have hread : linesRead (es ++ [e]) = linesRead es := by
        simp [linesRead, hrequest, Request.kind]
      have hwritten : (written (es ++ [e])).length = (written es).length + 1 := by
        simp [written, Request.text?, hrequest]
      refine .inl ⟨e.resume (Callable.meaning s) .null,
        { u with events := .wrote (t ++ "\n") :: u.events }, regular_resume .., ?_, ?_, rfl, ?_, ?_⟩
      · exact World.core_events _ u
      · rw [hread]
        exact (World.remaining_events _ u).trans hu
      · rw [transcriptStep_write hrequest, bind_assoc]
        rfl
      · rw [streamStep_write hrequest, hwritten]
        simp only [bind_assoc, pure_bind]
        rfl
    | readLine =>
      have hwritten : (written (es ++ [e])).length = (written es).length := by
        simp [written, Request.text?, hrequest]
      cases hl : lines.drop (linesRead es) with
      | nil =>
        have hcontents : u.contents k = [] := by rw [← World.remaining, hu, hl]; rfl
        refine .inr ⟨_, _, u.withSource k [], .inr ⟨rfl, rfl⟩, rfl, rfl, ?_, ?_⟩
        · rw [transcriptStep_exhausted hrequest _ hl]
          rfl
        · rw [Action.bind_apply, streamStep_exhausted hrequest hcontents]
      | cons l rest =>
        have hline : IsLine l := hlines l (List.mem_of_mem_drop (hl ▸ List.mem_cons_self))
        have hread : lines.drop (linesRead (es ++ [e])) = rest := by
          have hone : linesRead (es ++ [e]) = linesRead es + 1 := by
            simp [linesRead, hrequest, Request.kind]
          rw [hone, ← List.drop_drop, hl]
          rfl
        have hcontents : u.contents k = typed (l :: rest) := by rw [← World.remaining, hu, hl]
        refine .inl ⟨e.resume (Callable.meaning s) (.text l), u.withSource k (typed rest),
          regular_resume .., ?_, ?_, rfl, ?_, ?_⟩
        · exact @World.core_withRemaining (some k) (typed rest) u
        · rw [hread]
          exact World.contents_withSource (World.lt_of_contents hcontents) _
        · rw [transcriptStep_read hrequest _ hl, bind_assoc]
          rfl
        · rw [Action.bind_apply, streamStep_read hrequest hline hcontents, hwritten,
            ← Action.bind_apply, bind_assoc]
          rfl
    | beep =>
      refine .inr ⟨.unknownConsoleRequest "Beep", _, u, .inl rfl, rfl, rfl, ?_, ?_⟩
      · rw [transcriptStep, hrequest]
        rfl
      · rw [streamStep, hrequest]
        rfl
    | _ =>
      rw [hrequest] at hk
      cases hk
  visible {e r} hr := by
    obtain ⟨t, -, rfl⟩ := Option.map_eq_some_iff.mp hr
    rfl
  finish {es} _ _ := by
    exact ⟨transcriptFinish_script lines es, rfl⟩

/-- **A scripted console and a console on a stream agree**, in every combination and for every chain
that writes texts.  The stream is fresh: it holds the lines of the script, and no call that the
scripted run makes has to do with it.  If the scripted run gives a value, its output is the lines
written, and the run with the stream gives the same value and other outputs and the number of
these lines.  If one of the runs fails, so does the other one on the same effect, in the same way,
but for the number of lines given.  In any case the stream handler has written each of these lines,
in order, with one line feed after it, and nothing else is different for an observer. -/
theorem transcript_agrees_with_stream {ι : Type} [DecidableEq ι] (s : Settings) (hs : ι → Handler)
    {t : Shape ι} (hn : t.leaves.Nodup) {slot : ι} (hslot : slot ∈ t.leaves) {i j k : Nat}
    {lines : List String} (hlines : ∀ l ∈ lines, IsLine l) {A' B' : Handler}
    (hA : Arranged (Function.update hs slot (.transcript i (lines.map .text))) t A')
    (hB : Arranged (Function.update hs slot (.stream j k)) t B') (c : Chain) {w : World}
    (hstream : w.sources[k]? = some (typed lines))
    (hfresh : ∀ p ∈ callsInRun s (Callable.meaning s) c
      (Function.update hs slot (.transcript i (lines.map .text))) t A' w, Blind k p.act p.world)
    (htexts : ∀ e ∈ claimedInRun s (Callable.meaning s) c
      (Function.update hs slot (.transcript i (lines.map .text))) t slot A' w,
      e.request.WritesText) :
    let call := Callable.meaning s
    let claimed := claimedInRun s call c
      (Function.update hs slot (.transcript i (lines.map .text))) t slot A' w
    let texts := written claimed
    let records := texts.map fun text => Event.wrote (text ++ "\n")
    (run s call c A' w).InStep (SameOrExhausted lines.length) records.reverse w w
        (fun v v' _ _ => ∃ x o, o slot = .list (texts.map .text) ∧ v = .result x (t.nest o) ∧
          v' = .result x (t.nest (Function.update o slot (.int texts.length))))
        (run s call c B' w) ∧
      handledInRun s call c B' w = handledInRun s call c A' w ∧
      claimedInRun s call c (Function.update hs slot (.stream j k)) t slot B' w = claimed ∧
      ∀ e ∈ claimed, e.request.isA .console = true := by
  intro call claimed texts records
  let D := streamForTranscript s i j k hlines
  have hprovides : w.Provides (some k) := by
    rintro _ ⟨⟩
    exact (Array.getElem?_eq_some_iff.mp hstream).1
  have hremaining : w.remaining (some k) = D.left [] := by
    show w.sources[k]?.getD [] = typed lines
    rw [hstream]
    rfl
  obtain ⟨hstep, hhandled, hclaimed, hkind⟩ := D.run_inStep hA hB hn hprovides hremaining
    (fun p hp _ hk => Option.some.inj hk ▸ hfresh p hp) htexts
  refine ⟨?_, hhandled, hclaimed, hkind⟩
  have hrecords : D.records claimed = records.reverse := by
    show (claimed.filterMap fun e =>
      e.request.text?.map fun text => Event.wrote (text ++ "\n")).reverse = _
    rw [← List.map_filterMap]
    rfl
  rw [← hrecords]
  refine hstep.mono fun v v' _ _ h => ?_
  obtain ⟨x, o, o', rfl, rfl, hdiffer⟩ := h
  refine ⟨x, o, hdiffer.first hslot, rfl, ?_⟩
  rw [hdiffer.nest_eq]
  rfl

/-- A line is written. -/
def telling : Effect := (Effect.of (.writeLine (.text "a"))).map .lift

/-- A line is read, and then another one is written. -/
def asking : Effect :=
  ((Effect.of .readLine).map .lift).map (.bind (.always (.perform (.of (.writeLine (.text "a"))))))

/-- A transcript of one empty line, and a counter after it. -/
def scripted : Handler := .pair 3 (.transcript 1 [.text ""]) (.counter 9)

/-- The run against the transcript, and what comes to it. -/
theorem run_asking (call : Call) :
    let hs : Fin 2 → Handler :=
      Function.update (fun _ => .counter 9) 0 (.transcript 1 ([""].map .text))
    let t : Shape (Fin 2) := .pair (.leaf 0) (.leaf 1)
    let c : Chain := .suspended asking (.single ⟨"console"⟩)
    Arranged hs t scripted ∧
    (∃ es, ∀ w : World, run ⟨false, 5⟩ call c scripted w
      = .value (.result .null (.tuple [.list [.text "a"], .int 0]))
        { w with events := es ++ w.events }) ∧
    ∀ w, claimedInRun ⟨false, 5⟩ call c hs t 0 scripted w = [asking, telling] := by
  intro hs t c
  have hA : Arranged hs t scripted := .pair 3 (.leaf 0) (.leaf 1)
  let console : Value := .tuple [.tuple [.text ""], .tuple []]
  let σ : Fin 2 → Value := t.parts (.tuple [console, .int 0])
  let next : Value := .chain (.suspended telling (.single ⟨"console"⟩))
  let σ' : Fin 2 → Value := Function.update σ 0 (.tuple [.tuple [], .tuple []])
  have hanswer : asking.resume call (.text "") = pure next := by
    rw [asking, Effect.resume_map, Effect.resume_map, Effect.resume_of]
    rfl
  have hanswer' : telling.resume call .null = pure (.chain (.done .null ∅)) := by
    rw [telling, Effect.resume_map, Effect.resume_of]
    rfl
  have hoffer (w : World) : offerEach call hs σ asking t.leaves w
      = .value (some (0, .tuple [.tuple [], .tuple []], next)) w := by
    show offerEach call hs σ asking [0, 1] w = _
    rw [offerEach_cons]
    show (((asking.resume call (.text "") >>= _) >>= _) >>= _) w = _
    rw [hanswer]
    rfl
  have hoffer' (w : World) : offerEach call hs σ' telling t.leaves w
      = .value (some (0, .tuple [.tuple [], .tuple [.text "a"]], .chain (.done .null ∅))) w := by
    show offerEach call hs σ' telling [0, 1] w = _
    rw [offerEach_cons]
    show (((telling.resume call .null >>= _) >>= _) >>= _) w = _
    rw [hanswer']
    rfl
  have hdrive (w : World) : drive ⟨false, 5⟩ (scripted.offer call) 5 0 (t.nest σ) (.chain c) w
      = .value ⟨.null, .tuple [.tuple [.tuple [], .tuple [.text "a"]], .int 0], 2⟩ w := by
    rw [hA.drive_suspended (by decide), Action.bind_of_value (hoffer w)]
    show drive _ _ 4 1 (t.nest σ') next w = _
    rw [hA.drive_suspended (by decide), Action.bind_of_value (hoffer' w)]
    rfl
  have hcheck (w : World) : checkProvided c scripted w = .value () w := rfl
  have hopen (w : World) : openRun call scripted w = .value (t.nest σ)
    { w with events := .noted .debug ("Run started with " ++ scripted.written) :: w.events } := rfl
  refine ⟨hA, ⟨[.noted .debug ("Run finished after " ++ toString 2 ++ " step(s)"),
    .noted .debug ("Run started with " ++ scripted.written)], fun w => ?_⟩, fun w => ?_⟩
  · rw [run, runBy, Action.bind_of_value (hcheck w), Action.bind_of_value (hopen w),
      Action.bind_of_value (hdrive _)]
    rfl
  · have hslot (σ : Fin 2 → Value) {e : Effect} (he : e.request.isA .console = true) (w : World) :
        claimant call hs σ e t.leaves w = some 0 :=
      claimant_of_kind (show (hs 0).Simple .console from .transcript 1 _) he [1] w
    rw [claimedInRun, offersInRun, Action.bind_of_value (hcheck w), hopen]
    show claimedOf _ _ _ _ (offersBy _ _ hs t 5 0 σ _ _) = _
    rw [offersBy_taken (hoffer _) rfl, offersBy_taken (hoffer' _) rfl, offersBy_ended (by simp),
      claimedOf_cons, claimedOf_cons, Offering.claimant, Offering.claimant, hslot _ rfl,
      hslot _ rfl]
    rfl

/-- An empty line is read from the stream, and not taken for its end. -/
theorem transcript_agrees_with_stream_emptyLine :
    let c : Chain := .suspended asking (.single ⟨"console"⟩)
    let streaming : Handler := .pair 4 (.stream 2 0) (.counter 9)
    let call := Callable.meaning ⟨false, 5⟩
    let w : World := .initial "\n"
    ∃ w' u',
      run ⟨false, 5⟩ call c scripted w
        = .value (.result .null (.tuple [.list [.text "a"], .int 0])) w' ∧
      run ⟨false, 5⟩ call c streaming w
        = .value (.result .null (.tuple [.int 1, .int 0])) u' ∧
      World.Woven [.wrote "a\n"] w w w' u' := by
  intro c streaming call w
  obtain ⟨hA, ⟨es, hrun⟩, hclaimed⟩ := run_asking call
  have hB : Arranged (Function.update (fun _ => .counter 9) (0 : Fin 2) (.stream 2 0))
      (.pair (.leaf 0) (.leaf 1)) streaming := .pair 4 (.leaf 0) (.leaf 1)
  have hline : ∀ l ∈ [""], IsLine l := by simp [IsLine]
  have hends : EndsClear (some 0) (run ⟨false, 5⟩ call c scripted) w := by
    refine ⟨fun k hk text => ?_, ?_, ?_⟩
    · rw [hrun, hrun]
      rfl
    · rw [hrun]
      exact nofun
    · rintro _ ⟨⟩
      decide
  obtain ⟨hstep, -⟩ := transcript_agrees_with_stream ⟨false, 5⟩ (fun _ => .counter 9)
    (by decide) (by decide) hline hA hB c (w := w) rfl
    (fun p hp => clear_callsInRun hA (by decide) hends p hp 0 rfl) (by
      rw [hclaimed]
      intro e he v hv
      simp only [List.mem_cons, List.not_mem_nil, or_false] at he
      rcases he with rfl | rfl
      · cases hv
      · cases hv
        exact ⟨"a", rfl⟩)
  rw [hclaimed, hrun] at hstep
  generalize hrun' : run ⟨false, 5⟩ call c streaming w = o at hstep ⊢
  cases hstep with
  | value related woven =>
    obtain ⟨x, o, hslot, hresult, hresult'⟩ := related
    obtain ⟨rfl, ho⟩ := Value.result.inj hresult
    obtain ⟨-, ho⟩ := List.cons.inj (Value.tuple.inj ho)
    have ho₁ : Value.int 0 = o 1 := (List.cons.inj ho).1
    refine ⟨_, _, hrun w, congrArg₂ Outcome.value ?_ rfl, woven⟩
    rw [hresult']
    show Value.result _ (.tuple [.int 1, o 1]) = _
    rw [← ho₁]

end EffectHandlers
