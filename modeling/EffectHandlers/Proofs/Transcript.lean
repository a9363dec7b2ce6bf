/-
EffectHandlers/Proofs/Transcript.lean

The account of a scripted console.

A transcript is described by what it has done, and not by the two sequences
that it keeps.  Every request that it answers is one posting: a text was
written, or a line was read.  After some postings

    the lines that were read, and then the lines that are left,
                                        are the lines of the script,
    the texts that are kept             are the ones written, newest first

(`Accounts`).  So the line that a request is answered with is the one at the
place that the number of lines read so far gives, and when the last one was
read, the number of lines of the script is the number of lines read.

Main results: an offer in such a state is one more posting or fails for one
of four reasons (`posts_of_offer`, `Accounts.offer_failed_iff`).  In a run
against any combination of handlers with a transcript among them, every step
that the transcript takes is a posting, after those before, and no other
step changes what it keeps (`Advances.book`).  `transcript_accounts` puts
them together.
-/
import EffectHandlers.Proofs.Console

namespace EffectHandlers

open Handler

/-! ### Postings -/

/-- What a transcript has done for a request: a text was written, or a line was read. -/
inductive Posting
  | wrote (text : Value)
  | read (line : Value)

def Posting.text? : Posting → Option Value
  | .wrote text => some text
  | .read _ => none

def Posting.line? : Posting → Option Value
  | .wrote _ => none
  | .read line => some line

/-- The texts that were written, in order. -/
def textsOf (past : List Posting) : List Value := past.filterMap Posting.text?

/-- The lines that were read, in order. -/
def linesOf (past : List Posting) : List Value := past.filterMap Posting.line?

@[simp] theorem textsOf_wrote (past : List Posting) (text : Value) :
    textsOf (past ++ [.wrote text]) = textsOf past ++ [text] := by
  simp [textsOf, Posting.text?]

@[simp] theorem textsOf_read (past : List Posting) (line : Value) :
    textsOf (past ++ [.read line]) = textsOf past := by
  simp [textsOf, Posting.text?]

@[simp] theorem linesOf_wrote (past : List Posting) (text : Value) :
    linesOf (past ++ [.wrote text]) = linesOf past := by
  simp [linesOf, Posting.line?]

@[simp] theorem linesOf_read (past : List Posting) (line : Value) :
    linesOf (past ++ [.read line]) = linesOf past ++ [line] := by
  simp [linesOf, Posting.line?]

/-! ### States and offers -/

/-- The state of a transcript with lines still to read, after some texts were written. -/
def transcriptState (pending texts : List Value) : Value :=
  .tuple [.tuple pending, .tuple texts.reverse]

section

variable {call : Call} {id : Nat} {lines pending texts : List Value} {e : Effect}

/-- A console request is a step of a transcript. -/
theorem offer_transcript (he : e.request.isA .console = true) (state : Value) :
    (Handler.transcript id lines).offer call state e
      = transcriptStep call lines.length state e >>= fun p => pure (.handled p.1 p.2) := by
  rw [Handler.offer, whenKind_of_kind he]

/-- **Writing** adds the text, and leaves the lines that are left alone. -/
theorem transcript_write {text : Value} (he : e.request = .writeLine text) :
    (Handler.transcript id lines).offer call (transcriptState pending texts) e
      = e.resume call .null >>= fun next =>
        pure (.handled (transcriptState pending (texts ++ [text])) next) := by
  rw [offer_transcript (by rw [he]; rfl), transcriptState, transcriptStep_of_write he, bind_assoc,
    transcriptState, List.reverse_append]
  rfl

/-- **Reading** answers with the first line that is left, and leaves the texts alone. -/
theorem transcript_read {line : Value} (he : e.request = .readLine) :
    (Handler.transcript id lines).offer call (transcriptState (line :: pending) texts) e
      = e.resume call line >>= fun next =>
        pure (.handled (transcriptState pending texts) next) := by
  rw [offer_transcript (by rw [he]; rfl), transcriptState, transcriptStep_of_line he, bind_assoc]
  rfl

/-- Reading when no line is left is refused. -/
theorem transcript_spent (he : e.request = .readLine) :
    (Handler.transcript id lines).offer call (transcriptState [] texts) e
      = Action.fail (.refused (.consoleInputExhausted (some lines.length))) := by
  rw [offer_transcript (by rw [he]; rfl), transcriptState, transcriptStep_of_none he]
  rfl

theorem transcript_unknown (he : e.request = .beep) :
    (Handler.transcript id lines).offer call (transcriptState pending texts) e
      = Action.fail (.unknownConsoleRequest "Beep") := by
  rw [offer_transcript (by rw [he]; rfl), transcriptState, transcriptStep, he]
  rfl

/-- Requests of other kinds are left. -/
theorem transcript_declines (he : e.request.isA .console = false) (state : Value) :
    (Handler.transcript id lines).offer call state e = pure .declined :=
  (Simple.transcript id lines).offer_of_other he state

end

/-- The requests to a console. -/
theorem Request.console_cases {r : Request} (h : r.isA .console = true) :
    (∃ text, r = .writeLine text) ∨ r = .readLine ∨ r = .beep := by
  cases r with
  | writeLine text => exact .inl ⟨text, rfl⟩
  | readLine => exact .inr (.inl rfl)
  | beep => exact .inr (.inr rfl)
  | _ => cases h

/-! ### The account -/

variable (call : Call) (lines : List Value) (past : List Posting) (e : Effect) (u : World) in
/-- An effect comes to a transcript in a world, after some postings, and it is one more; the effect
is resumed with the answer.  What is read is the line at the place that the number of lines read
before gives. -/
inductive Posts : Posting → Value → World → Prop
  | write {text next : Value} {w : World} (request : e.request = .writeLine text)
    (resumes : e.resume call .null u = .value next w) : Posts (.wrote text) next w
  | read {line next : Value} {w : World} (request : e.request = .readLine)
    (nth : lines[(linesOf past).length]? = some line)
    (resumes : e.resume call line u = .value next w) : Posts (.read line) next w

variable (call : Call) (lines : List Value) (past : List Posting) (e : Effect) (u : World) in
/-- An effect comes to a transcript in a world, after some postings, and the offer fails: a line is
to be read after all of them were, or the request is not known, or what goes on with the answer
fails. -/
inductive Balks : Failure → World → Prop
  | exhausted (request : e.request = .readLine) (spent : linesOf past = lines) :
    Balks (.refused (.consoleInputExhausted (some (linesOf past).length))) u
  | unknown (request : e.request = .beep) : Balks (.unknownConsoleRequest "Beep") u
  | write {text : Value} {f : Failure} {w : World} (request : e.request = .writeLine text)
    (resumes : e.resume call .null u = .failed f w) : Balks f w
  | read {line : Value} {f : Failure} {w : World} (request : e.request = .readLine)
    (nth : lines[(linesOf past).length]? = some line)
    (resumes : e.resume call line u = .failed f w) : Balks f w

/-- The state of a transcript of some lines after some postings: the lines that were read and those
that are left are the lines that it was given. -/
def Accounts (lines : List Value) (past : List Posting) (state : Value) : Prop :=
  ∃ pending, state = transcriptState pending (textsOf past) ∧ linesOf past ++ pending = lines

namespace Accounts

variable {call : Call} {id : Nat} {lines : List Value} {past : List Posting} {state : Value}
  {e : Effect} {u w : World}

theorem start (lines : List Value) : Accounts lines [] (transcriptStart lines) :=
  ⟨lines, rfl, rfl⟩

theorem finish (h : Accounts lines past state) :
    transcriptFinish state = pure (.list (textsOf past)) := by
  obtain ⟨pending, rfl, -⟩ := h
  rw [transcriptState, transcriptFinish_eq, List.reverse_reverse]

/-- The next line is the first one that is left. -/
theorem nth_eq_head {pending : List Value} (h : linesOf past ++ pending = lines) :
    lines[(linesOf past).length]? = pending.head? := by
  rw [← h, List.getElem?_append_right (Nat.le_refl _), Nat.sub_self, List.head?_eq_getElem?]

/-- All lines were read exactly if none is left. -/
theorem eq_lines_iff {pending : List Value} (h : linesOf past ++ pending = lines) :
    linesOf past = lines ↔ pending = [] := by
  rw [← h, eq_comm, List.append_right_eq_self]

/-- What a transcript takes is a posting, and the account goes on. -/
theorem posts_of_offer (h : Accounts lines past state) {state' next : Value}
    (ho : (Handler.transcript id lines).offer call state e u = .value (.handled state' next) w) :
    ∃ p, Posts call lines past e u p next w ∧ Accounts lines (past ++ [p]) state' := by
  obtain ⟨pending, rfl, hlines⟩ := h
  by_cases hk : e.request.isA .console = true
  · rcases Request.console_cases hk with ⟨text, he⟩ | he | he
    · rw [transcript_write he] at ho
      obtain ⟨n, w₁, hresume, ho⟩ := Action.bind_eq_value.mp ho
      obtain ⟨heq, rfl⟩ := Action.pure_eq_value.mp ho
      cases heq
      exact ⟨.wrote text, .write he hresume, pending, by rw [textsOf_wrote],
        by rw [linesOf_wrote, hlines]⟩
    · cases pending with
      | nil =>
        rw [transcript_spent he] at ho
        cases ho
      | cons line rest =>
        rw [transcript_read he] at ho
        obtain ⟨n, w₁, hresume, ho⟩ := Action.bind_eq_value.mp ho
        obtain ⟨heq, rfl⟩ := Action.pure_eq_value.mp ho
        cases heq
        exact ⟨.read line, .read he (nth_eq_head hlines) hresume, rest, by rw [textsOf_read],
          by rw [linesOf_read, List.append_assoc, List.singleton_append, hlines]⟩
    · rw [transcript_unknown he] at ho
      cases ho
  · rw [transcript_declines (Bool.eq_false_iff.mpr hk)] at ho
    cases ho

/-- **Why an offer fails.** -/
theorem offer_failed_iff (h : Accounts lines past state) {f : Failure} :
    (Handler.transcript id lines).offer call state e u = .failed f w ↔
      Balks call lines past e u f w := by
  obtain ⟨pending, rfl, hlines⟩ := h
  constructor
  · intro ho
    by_cases hk : e.request.isA .console = true
    · rcases Request.console_cases hk with ⟨text, he⟩ | he | he
      · rw [transcript_write he] at ho
        rcases Action.bind_eq_failed.mp ho with hresume | ⟨n, w₁, -, ho⟩
        · exact .write he hresume
        · cases ho
      · cases pending with
        | nil =>
          have hspent := (eq_lines_iff hlines).mpr rfl
          rw [transcript_spent he, ← hspent] at ho
          cases ho
          exact .exhausted he hspent
        | cons line rest =>
          rw [transcript_read he] at ho
          rcases Action.bind_eq_failed.mp ho with hresume | ⟨n, w₁, -, ho⟩
          · exact .read he (nth_eq_head hlines) hresume
          · cases ho
      · rw [transcript_unknown he] at ho
        cases ho
        exact .unknown he
    · rw [transcript_declines (Bool.eq_false_iff.mpr hk)] at ho
      cases ho
  · intro hbalks
    cases hbalks with
    | exhausted he hspent =>
      obtain rfl := (eq_lines_iff hlines).mp hspent
      rw [transcript_spent he, hspent]
      rfl
    | unknown he =>
      rw [transcript_unknown he]
      rfl
    | write he hresume => rw [transcript_write he, Action.bind_apply, hresume]
    | read he hnth hresume =>
      rw [nth_eq_head hlines] at hnth
      cases pending with
      | nil => cases hnth
      | cons line rest =>
        cases hnth
        rw [transcript_read he, Action.bind_apply, hresume]

/-- The transcript itself refuses a request exactly if a line is to be read after all of them were.
The bare effect has nothing that could go on with an answer. -/
theorem exhausted_iff (h : Accounts lines past state) {r : Request} {n : Option Int} :
    (∃ u w, (Handler.transcript id lines).offer call state (.of r) u
        = .failed (.refused (.consoleInputExhausted n)) w) ↔
      r = .readLine ∧ linesOf past = lines ∧ n = some (linesOf past).length := by
  constructor
  · rintro ⟨u, w, ho⟩
    rw [h.offer_failed_iff] at ho
    cases ho with
    | exhausted request spent => exact ⟨request, spent, rfl⟩
    | write request resumes | read request nth resumes =>
      rw [Effect.resume_of] at resumes
      cases resumes
  · rintro ⟨rfl, hspent, rfl⟩
    exact ⟨.initial "", .initial "", h.offer_failed_iff.mpr (.exhausted rfl hspent)⟩

end Accounts

/-! ### The account of a run -/

section

variable {ι : Type} [DecidableEq ι]

variable (call : Call) (hs : ι → Handler) (t : Shape ι) (slot : ι) (lines : List Value) in
/-- The exchanges of a drive against a combination, with what the transcript at `slot` has done
before them and after them.  A step that the transcript takes is one more posting, after those
before; a step that another handler takes leaves its state alone. -/
inductive Book : List Posting → List Exchange → List Posting → Prop
  | nil (past : List Posting) : Book past [] past
  | own {past now : List Posting} {p : Posting} {xs : List Exchange} {σ : ι → Value} {e : Effect}
    {state next : Value} {w u w' : World}
    (takes : (hs slot).offer call (σ slot) e u = .value (.handled state next) w')
    (posts : Posts call lines past e u p next w') (rest : Book (past ++ [p]) xs now) :
    Book past (⟨.offer (t.nest σ) e, w,
      .value (.handled (t.nest (Function.update σ slot state)) next) w'⟩ :: xs) now
  | other {past now : List Posting} {j : ι} {xs : List Exchange} {σ : ι → Value} {e : Effect}
    {state next : Value} {w u w' : World} (another : slot ≠ j)
    (takes : (hs j).offer call (σ j) e u = .value (.handled state next) w')
    (rest : Book past xs now) :
    Book past (⟨.offer (t.nest σ) e, w,
      .value (.handled (t.nest (Function.update σ j state)) next) w'⟩ :: xs) now

variable {s : Settings} {call : Call} {hs : ι → Handler} {t : Shape ι} {A : Handler} {slot : ι}
  {id : Nat} {lines : List Value}

/-- **The steps of a drive are postings of the transcript, or leave it alone.** -/
theorem Advances.book (hA : Arranged hs t A) (hn : t.leaves.Nodup)
    (hscript : hs slot = .transcript id lines) {p q : Standing} {xs : List Exchange}
    (hsteps : Advances s (A.offer call) p xs q) {past : List Posting} {σ : ι → Value}
    (hp : p.state = t.nest σ) (hσ : Accounts lines past (σ slot)) :
    ∃ now τ, Book call hs t slot lines past xs now ∧ q.state = t.nest τ ∧
      Accounts lines now (τ slot) := by
  -- The account is that of the slot's own state, whoever takes a step.
  induction hsteps generalizing past σ with
  | nil p => exact ⟨past, σ, .nil past, hp, hσ⟩
  | @cons n state state' next e r w w' u xs q within handled recorded rest ih =>
    obtain rfl : state = t.nest σ := hp
    obtain ⟨j, v, hoffered, rfl⟩ := (hA.offer_handled_iff hn).mp handled
    obtain ⟨-, v', htakes⟩ := offerEach_some hoffered
    by_cases hj : slot = j
    · subst hj
      have hoffer := htakes
      rw [hscript] at hoffer
      obtain ⟨posting, hposts, haccounts⟩ := hσ.posts_of_offer hoffer
      have hkept : Accounts lines (past ++ [posting]) (Function.update σ slot v slot) := by
        rw [Function.update_self]
        exact haccounts
      obtain ⟨now, τ, hbook, hq, hτ⟩ := ih rfl hkept
      exact ⟨now, τ, .own htakes hposts hbook, hq, hτ⟩
    · have hkept : Accounts lines past (Function.update σ j v slot) := by
        rw [Function.update_of_ne hj]
        exact hσ
      obtain ⟨now, τ, hbook, hq, hτ⟩ := ih rfl hkept
      exact ⟨now, τ, .other hj htakes hbook, hq, hτ⟩

/-- A transcript is started with the whole script, in every world. -/
theorem start_transcript (hA : Arranged hs t A) (hn : t.leaves.Nodup) (hi : slot ∈ t.leaves)
    (hscript : hs slot = .transcript id lines) {w u : World} {state : Value}
    (h : A.start call w = .value state u) :
    ∃ σ, state = t.nest σ ∧ Accounts lines [] (σ slot) := by
  rw [hA.start_eq] at h
  obtain ⟨σ, rfl, hleaves⟩ := Shape.visit_value hn h
  obtain ⟨z, z', hstart⟩ := hleaves slot hi
  rw [hscript] at hstart
  obtain ⟨hstate, -⟩ := Action.pure_eq_value.mp hstart
  exact ⟨σ, rfl, hstate ▸ .start lines⟩

/-- A transcript gives the texts that were written, in order. -/
theorem finish_transcript (hA : Arranged hs t A) (hn : t.leaves.Nodup) (hi : slot ∈ t.leaves)
    (hscript : hs slot = .transcript id lines) {σ : ι → Value} {past : List Posting}
    (hσ : Accounts lines past (σ slot)) {w u : World} {output : Value}
    (h : A.finish call (t.nest σ) w = .value output u) :
    ∃ o, output = t.nest o ∧ o slot = .list (textsOf past) := by
  rw [hA.finish_eq] at h
  obtain ⟨o, rfl, hleaves⟩ := Shape.visit_value hn h
  obtain ⟨z, z', hfinish⟩ := hleaves slot hi
  rw [hscript] at hfinish
  have hgiven : transcriptFinish (σ slot) z = .value (o slot) z' := hfinish
  rw [hσ.finish] at hgiven
  obtain ⟨htexts, -⟩ := Action.pure_eq_value.mp hgiven
  exact ⟨o, rfl, htexts.symm⟩

/-! ### Failing for want of a line -/

omit [DecidableEq ι] in
/-- An offer fails where it comes to a handler that fails on it. -/
theorem offerEach_failed_of_claimant {σ : ι → Value} {e : Effect} {is : List ι} {f : Failure}
    {w : World} (hclaims : claimant call hs σ e is w = some slot)
    (hfails : (hs slot).offer call (σ slot) e = Action.fail f) :
    ∃ u, offerEach call hs σ e is w = .failed f u := by
  induction is generalizing w with
  | nil => cases hclaims
  | cons i is ih =>
    rw [claimant] at hclaims
    rw [offerEach_cons, Action.bind_apply]
    -- Either the handler leaves the effect to the later ones, or it is the claimant itself.
    cases hv : (hs i).offer call (σ i) e w with
    | value v w' =>
      rw [hv] at hclaims
      dsimp only at hclaims ⊢
      cases hclaim : v.claim i with
      | none =>
        rw [hclaim] at hclaims
        exact ih hclaims
      | some r =>
        rw [hclaim] at hclaims
        obtain rfl := Option.some.inj hclaims
        rw [hfails] at hv
        cases hv
    | failed f' w' =>
      rw [hv] at hclaims
      obtain rfl := Option.some.inj hclaims
      rw [hfails] at hv
      cases hv
      exact ⟨w, rfl⟩
    | exhausted =>
      rw [hv] at hclaims
      obtain rfl := Option.some.inj hclaims
      rw [hfails] at hv
      cases hv

theorem Arranged.offer_failed (hA : Arranged hs t A) (hn : t.leaves.Nodup) {σ : ι → Value}
    {e : Effect} {f : Failure} {w u : World}
    (h : offerEach call hs σ e t.leaves w = .failed f u) :
    A.offer call (t.nest σ) e w = .failed f u := by
  have hsettled : (A.offer call (t.nest σ) e >>= fun v => pure v.settled) w
      = (offerEach call hs σ e t.leaves >>= fun r => pure (t.answer σ r)) w :=
    congrFun (hA.offer_settled hn σ e) w
  rw [Action.bind_apply (offerEach _ _ _ _ _), h] at hsettled
  rcases Action.bind_eq_failed.mp hsettled with hoffer | ⟨_, _, _, hpure⟩
  · exact hoffer
  · cases hpure

/-- A run fails where a handler fails on the effect that comes to it. -/
theorem run_failed_of_claimant (hA : Arranged hs t A) (hn : t.leaves.Nodup) {c : Chain} {w : World}
    {xs : List Exchange} {q : Standing} (hreaches : RunReaches s call c A w xs q)
    (hprovided : ∀ a, a ∈ c.requires → a ∈ A.capabilities) {σ : ι → Value} (hq : q.state = t.nest σ)
    {e : Effect} {r : CapabilitySet} (hnext : q.next = .chain (.suspended e r))
    (hwithin : q.steps < s.maxSteps) {f : Failure}
    (hclaims : claimant call hs σ e t.leaves q.world = some slot)
    (hfails : (hs slot).offer call (σ slot) e = Action.fail f) :
    ∃ u, run s call c A w = .failed f u := by
  obtain ⟨n, state, next, w'⟩ := q
  obtain rfl : state = t.nest σ := hq
  obtain rfl : next = .chain (.suspended e r) := hnext
  obtain ⟨state, z, hstart, hsteps⟩ := hreaches
  obtain ⟨u, hoffered⟩ := offerEach_failed_of_claimant hclaims hfails
  have hlost : (A.offer call (t.nest σ) e w').Lost (.failed f u : Outcome Drive) := by
    rw [hA.offer_failed hn hoffered]
    exact .failed f u
  exact ⟨u, (Dialogue.halted hprovided hstart hsteps (.lost hwithin hlost) (.failed f u)).run_eq⟩

end

/-! ### The theorem -/

/-- **The account of a scripted console**, alone or among any handlers.

Writing adds a text and leaves the lines that are left alone; reading answers with the first of
these, and leaves the texts alone.

A run may be begun in any world, also in one that an earlier run has left, and its transcript
starts from the whole script.  However far it has come, the steps that the transcript took are
postings from an empty past on, the one for each line read being answered with the line at its place
in the script, and the others have left it alone.  The lines that were read and those that are left
are the script.  An offer then fails for one of the reasons of `Balks` and no other: the transcript
itself refuses a request exactly if a line is to be read after all of them were, with their number,
and a run in which such a request comes to it fails with that refusal.  When the run succeeds, the
texts that were written are its result, in order. -/
theorem transcript_accounts {ι : Type} [DecidableEq ι] (call : Call) (hs : ι → Handler)
    (t : Shape ι) (A : Handler) (slot : ι) (id : Nat) (lines : List Value) (hA : Arranged hs t A)
    (hn : t.leaves.Nodup) (hi : slot ∈ t.leaves) (hscript : hs slot = .transcript id lines) :
    (∀ (pending texts : List Value) (e : Effect),
      (∀ text, e.request = .writeLine text →
        (hs slot).offer call (transcriptState pending texts) e
          = e.resume call .null >>= fun next =>
            pure (.handled (transcriptState pending (texts ++ [text])) next)) ∧
      ∀ line, e.request = .readLine →
        (hs slot).offer call (transcriptState (line :: pending) texts) e
          = e.resume call line >>= fun next =>
            pure (.handled (transcriptState pending texts) next)) ∧
    (∀ s c w xs q, RunReaches s call c A w xs q → ∃ past pending σ,
      Book call hs t slot lines [] xs past ∧ q.state = t.nest σ ∧
      σ slot = transcriptState pending (textsOf past) ∧ linesOf past ++ pending = lines ∧
      (∀ e u f u', (hs slot).offer call (σ slot) e u = .failed f u' ↔
        Balks call lines past e u f u') ∧
      (∀ r n, (∃ u u', (hs slot).offer call (σ slot) (.of r) u
          = .failed (.refused (.consoleInputExhausted n)) u') ↔
        r = .readLine ∧ linesOf past = lines ∧ n = some (linesOf past).length) ∧
      ∀ e r, q.next = .chain (.suspended e r) → q.steps < s.maxSteps →
        claimant call hs σ e t.leaves q.world = some slot → e.request = .readLine →
        linesOf past = lines → (∀ a, a ∈ c.requires → a ∈ A.capabilities) →
        ∃ u, run s call c A w
          = .failed (.refused (.consoleInputExhausted (some (linesOf past).length))) u) ∧
    ∀ s c w v w', run s call c A w = .value v w' → ∃ x o xs q r past,
      RunReaches s call c A w xs q ∧ q.next = .chain (.done x r) ∧
        Book call hs t slot lines [] xs past ∧ v = .result x (t.nest o) ∧
        o slot = .list (textsOf past) := by
  have hreached : ∀ s c w xs q, RunReaches s call c A w xs q → ∃ past σ,
      Book call hs t slot lines [] xs past ∧ q.state = t.nest σ ∧
        Accounts lines past (σ slot) := by
    rintro s c w xs q ⟨state, u, hstart, hsteps⟩
    obtain ⟨σ, rfl, hσ⟩ := start_transcript hA hn hi hscript hstart
    exact hsteps.book hA hn hscript rfl hσ
  refine ⟨fun pending texts e => ⟨fun text he => ?_, fun line he => ?_⟩, ?_, ?_⟩
  · rw [hscript]
    exact transcript_write he
  · rw [hscript]
    exact transcript_read he
  · intro s c w xs q hreaches
    obtain ⟨past, σ, hbook, hq, hσ⟩ := hreached s c w xs q hreaches
    obtain ⟨pending, hstate, hlines⟩ := hσ
    have hσ : Accounts lines past (σ slot) := ⟨pending, hstate, hlines⟩
    refine ⟨past, pending, σ, hbook, hq, hstate, hlines, fun e u f u' => ?_, fun r n => ?_, ?_⟩
    · rw [hscript]
      exact hσ.offer_failed_iff
    · rw [hscript]
      exact hσ.exhausted_iff
    · intro e r hnext hwithin hclaims he hspent hprovided
      refine run_failed_of_claimant hA hn hreaches hprovided hq hnext hwithin hclaims ?_
      obtain rfl := (Accounts.eq_lines_iff hlines).mp hspent
      rw [hscript, hstate, transcript_spent he, hspent]
  · intro s c w v w' hrun
    obtain ⟨xs, d, r, u, output, hreaches, hfinish, rfl⟩ := run_value_reaches hrun
    obtain ⟨past, σ, hbook, hstate, hσ⟩ := hreached s c w xs _ hreaches
    have hfinished : A.finish call (t.nest σ) (d.closed u) = .value output w' := by
      rw [← hstate]
      exact hfinish
    obtain ⟨o, rfl, ho⟩ := finish_transcript hA hn hi hscript hσ hfinished
    exact ⟨d.value, o, xs, _, r, past, hreaches, rfl, hbook, rfl, ho⟩

/-- One line is read and one text is written, beside a counter. -/
theorem transcript_accounts_asking :
    ∃ xs past w', run ⟨false, 5⟩ (Callable.meaning ⟨false, 5⟩)
        (.suspended asking (.single ⟨"console"⟩)) scripted (.initial "")
        = .value (.result .null (.tuple [.list [.text "a"], .int 0])) w' ∧
      Book (Callable.meaning ⟨false, 5⟩)
        (Function.update (fun _ => .counter 9) (0 : Fin 2) (.transcript 1 [.text ""]))
        (.pair (.leaf 0) (.leaf 1)) 0 [.text ""] [] xs past ∧
      textsOf past = [.text "a"] := by
  obtain ⟨hA, ⟨es, hrun⟩, -⟩ := run_asking (Callable.meaning ⟨false, 5⟩)
  obtain ⟨-, -, hruns⟩ := transcript_accounts (Callable.meaning ⟨false, 5⟩) _ _ scripted 0 1
    [.text ""] hA (by decide) (by decide) rfl
  obtain ⟨x, o, xs, q, r, past, -, -, hbook, hresult, ho⟩ := hruns _ _ _ _ _ (hrun (.initial ""))
  obtain ⟨-, houtput⟩ := Value.result.inj hresult
  obtain ⟨htexts, -⟩ := List.cons.inj (Value.tuple.inj houtput)
  exact ⟨xs, past, _, hrun _, hbook, (Value.list.inj (htexts.trans ho)).symm⟩

end EffectHandlers
