/-
EffectHandlers/Handler/Terminal.lean

Handlers of console requests.

The transcript answers from given lines.  Its state is the pair of the
lines still to read and the lines written, newest first; its result is the
list of lines written, oldest first.

The stream handler reads from a text that lives in the world and writes
lines as events; its state and its result are the number of lines written.
A line ends at a line feed.  The carriage returns and line feeds at the end
of a line are not part of the answer.
-/
import EffectHandlers.Pipeline
import EffectHandlers.Value.Items

namespace EffectHandlers.Handler

/-! ### The transcript -/

/-- The state of a transcript before anything was read or written. -/
def transcriptStart (lines : List Value) : Value := .tuple [.tuple lines, .tuple []]

/-- The first line of the lines still to read and the rest, if there is one. -/
def nextLine (pending : Value) : Except Failure (Option (Value × Value)) :=
  match pending with
  | .tuple (x :: xs) => .ok (some (x, .tuple xs))
  | .list (x :: xs) => .ok (some (x, .list xs))
  | .text s =>
    match s.toList with
    | [] => .ok none
    | c :: cs => .ok (some (Value.char c, .text (String.ofList cs)))
  | .result v o => .ok (some (v, .tuple [o]))
  | .dict (_ :: _) | .frozen (_ :: _) => .error (.notKey "slice")
  | other => if other.isTrue then .error (.notIndexable other.typeName) else .ok none

/-- One step of a transcript that was given `count` lines. -/
def transcriptStep (call : Call) (count : Nat) (console : Value) (e : Effect) :
    Action (Value × Value) := do
  let (pending, written) ← Action.ofExcept console.unpackTwo
  match e.request with
  | .writeLine line =>
    let written ← Action.ofExcept ((Value.tuple [line]).plus written)
    return (.tuple [pending, written], ← e.resume call .null)
  | .readLine =>
    match ← Action.ofExcept (nextLine pending) with
    -- All lines were read when none is left, so their number is the one given.
    | none => Action.fail (.refused (.consoleInputExhausted (some count)))
    | some (line, rest) => return (.tuple [rest, written], ← e.resume call line)
  | other => Action.fail (.unknownConsoleRequest other.kind.name)

/-- The result of a transcript: the lines written, oldest first. -/
def transcriptFinish (console : Value) : Action Value := do
  let (_, written) ← Action.ofExcept console.unpackTwo
  return .list (← Action.ofExcept written.reversed)

section

variable {call : Call} {e : Effect}

theorem transcriptStep_of_write {text : Value} (he : e.request = .writeLine text) (count : Nat)
    (pending : Value) (written : List Value) :
    transcriptStep call count (.tuple [pending, .tuple written]) e
      = e.resume call .null >>= fun next =>
        pure (.tuple [pending, .tuple (text :: written)], next) := by
  rw [transcriptStep, he]
  rfl

theorem transcriptStep_of_line (he : e.request = .readLine) (count : Nat) (line written : Value)
    (rest : List Value) :
    transcriptStep call count (.tuple [.tuple (line :: rest), written]) e
      = e.resume call line >>= fun next => pure (.tuple [.tuple rest, written], next) := by
  rw [transcriptStep, he]
  rfl

theorem transcriptStep_of_none (he : e.request = .readLine) (count : Nat) (written : Value) :
    transcriptStep call count (.tuple [.tuple [], written]) e
      = Action.fail (.refused (.consoleInputExhausted (some count))) := by
  rw [transcriptStep, he]
  rfl

theorem transcriptFinish_eq (pending : Value) (written : List Value) :
    transcriptFinish (.tuple [pending, .tuple written]) = pure (.list written.reverse) := rfl

end

/-! ### The stream -/

/-- The first line of a text, its end included, and the rest. -/
def splitLine : List Char → List Char × List Char
  | [] => ([], [])
  | c :: cs => if c = '\n' then ([c], cs) else (c :: (splitLine cs).1, (splitLine cs).2)

/-- A line without the carriage returns and line feeds at its end. -/
def trimLineEnd (cs : List Char) : List Char :=
  (cs.reverse.dropWhile fun c => c == '\r' || c == '\n').reverse

/-- Read a line from a stream; nothing is left if the line is empty. -/
def readLine (source : Nat) : Action (List Char) := Action.exchange fun w =>
  let parts := splitLine (w.sources[source]?.getD [])
  (parts.1, { w with sources := w.sources.setIfInBounds source parts.2 })

/-- One step of a stream; the state is the number of lines written. -/
def streamStep (call : Call) (source : Nat) (count : Value) (e : Effect) :
    Action (Value × Value) :=
  match e.request with
  | .writeLine line => do
    let full ← Action.ofExcept (line.plus (.text "\n"))
    -- The line is out before the program goes on and whatever it then comes to.
    Action.emit (.wrote (← Action.text full.shown))
    let count ← Action.ofExcept (count.plus (.int 1))
    return (count, ← e.resume call .null)
  | .readLine => do
    let line ← readLine source
    if line.isEmpty then Action.fail (.refused (.consoleInputExhausted none))
    else return (count, ← e.resume call (.text (String.ofList (trimLineEnd line))))
  | other => Action.fail (.unknownConsoleRequest other.kind.name)

end EffectHandlers.Handler
