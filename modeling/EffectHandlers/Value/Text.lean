/-
EffectHandlers/Value/Text.lean

How values are shown.

`Value.form` is the form that tells values apart: texts are quoted,
collections bracketed, effects and chains shown with the fields that count
for their equality.  `Value.shown` is the same, except that a text is
itself and a refusal is its message.  Functions have no contents to show.

Not every value can be shown (`TextFault`): a keyed handler is shown with
its keys in order, and there may be none; and an integer may be too long.
What comes first in the form is looked at first, so the first such part is
the one that is reported.

The names of types, the spellings of constants and the wording of messages
are what users of the library see; they stand here once.
-/
import EffectHandlers.Value.Equality
import EffectHandlers.Value.Sorting
import EffectHandlers.Text.Decimal
import EffectHandlers.Text.Quoted

namespace EffectHandlers

/-! ### Names of types -/

/-- The name of the type of a handler. -/
def Handler.typeName : Handler → String
  | .collector _ => "PureLogHandler"
  | .emitter _ _ _ => "LoguruLogHandler"
  | .transcript _ _ => "PureConsoleHandler"
  | .stream _ _ => "StreamConsoleHandler"
  | .store _ _ => "PureStateHandler"
  | .counter _ => "CounterHandler"
  | .recorder _ _ _ => "RecordingHandler"
  | .pair _ _ _ => "CombinedHandler"
  | .custom _ m => m.name

/-- The name of the type of a refusal. -/
def Refusal.typeName : Refusal → String
  | .unhandledEffect _ => "UnhandledEffectError"
  | .missingCapability _ => "MissingCapabilityError"
  | .capabilityConflict _ => "CapabilityConflictError"
  | .consoleInputExhausted _ => "ConsoleInputExhaustedError"

/-- The name of the type of a value. -/
def Value.typeName : Value → String
  | .null => "NoneType"
  | .bool _ => "bool"
  | .int _ => "int"
  | .text _ => "str"
  | .list _ => "list"
  | .tuple _ => "tuple"
  | .dict _ => "dict"
  | .frozen _ => "frozendict"
  | .capability _ => "Capability"
  | .capabilities _ => "frozenset"
  | .effect e => e.request.kind.name
  | .chain (.done _ _) => "Done"
  | .chain (.suspended _ _) => "Suspended"
  | .function _ => "function"
  | .handler h => h.typeName
  | .handled _ _ => "Handled"
  | .declined => "NotMine"
  | .result _ _ => "RunResult"
  | .cell _ => "Cell"
  | .refusal _ r => r.typeName

/-! ### Refusals -/

/-- The names of a set, separated by commas. -/
def CapabilitySet.listed (s : CapabilitySet) : String := String.intercalate ", " s.names

/-- The message of a refusal. -/
def Refusal.message : Refusal → String
  | .unhandledEffect e =>
    let c := Text.quoted e.capability.name
    "No handler for " ++ e.request.kind.name ++ " (capability " ++ c ++ ")\n"
      ++ "Hint: combine a handler for " ++ c ++ " into the handler passed to run()"
  | .missingCapability s =>
    "Handler does not provide required capabilities: " ++ s.listed ++ "\n"
      ++ "Hint: add handlers for these capabilities with combine(...)"
  | .capabilityConflict s =>
    "Combined handlers both claim: " ++ s.listed ++ "\n"
      ++ "Hint: each capability must be interpreted by exactly one handler"
  | .consoleInputExhausted none => "Console input exhausted"
  | .consoleInputExhausted (some n) =>
    "Console input exhausted after " ++ toString n ++ " line(s)"

/-! ### Faults -/

/-- Why a value cannot be shown: two keys that are to be put in order cannot be compared, or an
integer is too long. -/
inductive TextFault
  | notOrdered (left right : String)
  | tooLong
deriving DecidableEq, Repr

/-- An integer in decimal digits. -/
def decimal (n : Int) : Except TextFault String :=
  if Text.isTooLong n then .error .tooLong else .ok (toString n)

/-! ### Order of keys -/

/-- The items of a value that is compared item by item. -/
def Value.parts? : Value → Option (List Value)
  | .tuple xs => some xs
  | .result v o => some [v, o]
  | _ => none

mutual

/-- Whether a key is less than another one: numbers by size, texts by code point, tuples by the
first place where they differ, sets by inclusion.  Other keys have no order. -/
def Value.less : Value → Value → Except TextFault Bool
  | .int a, .int b => .ok (a < b)
  | .int a, .bool b => .ok (a < boolNumber b)
  | .bool a, .int b => .ok (boolNumber a < b)
  | .bool a, .bool b => .ok (boolNumber a < boolNumber b)
  | .text a, .text b => .ok (a < b)
  | .capabilities s, .capabilities t => .ok ((s \ t).isEmpty && !(t \ s).isEmpty)
  | .tuple xs, w =>
    match w.parts? with
    | some ys => itemsLess xs ys
    | none => .error (.notOrdered "tuple" w.typeName)
  | .result v o, w =>
    match w.parts? with
    | some [] => .ok false
    | some [x] => if v.same x then .ok false else v.less x
    | some (x :: y :: rest) =>
      if v.same x then
        if o.same y then .ok (!rest.isEmpty) else o.less y
      else v.less x
    | none => .error (.notOrdered "RunResult" w.typeName)
  | v, w => .error (.notOrdered v.typeName w.typeName)
termination_by structural v => v

/-- Whether items are less than others; a list is less than the lists that go on from it. -/
def itemsLess : List Value → List Value → Except TextFault Bool
  | _, [] => .ok false
  | [], _ :: _ => .ok true
  | x :: xs, y :: ys => if x.same y then itemsLess xs ys else x.less y
termination_by structural xs => xs

end

/-! ### The written form -/

/-- Items between brackets, separated by commas. -/
def bracketed (opening closing : String) (items : List String) : String :=
  opening ++ String.intercalate ", " items ++ closing

/-- Named fields between parentheses after a name. -/
def recordForm (name : String) (fields : List (String × String)) : String :=
  name ++ bracketed "(" ")" (fields.map fun f => f.1 ++ "=" ++ f.2)

/-- Items as a tuple; a single item is followed by a comma. -/
def tupleForm : List String → String
  | [x] => "(" ++ x ++ ",)"
  | xs => bracketed "(" ")" xs

/-- A capability as it is shown. -/
def Capability.written (c : Capability) : String :=
  "Capability(" ++ Text.quoted c.name ++ ")"

mutual

/-- The form of a value that tells it apart from others. -/
def Value.form : Value → Except TextFault String
  | .null => .ok "None"
  | .bool b => .ok (if b then "True" else "False")
  | .int n => decimal n
  | .text s => .ok (Text.quoted s)
  | .list xs => do return bracketed "[" "]" (← formItems xs)
  | .tuple xs => do return tupleForm (← formItems xs)
  | .dict es => do return bracketed "\x7b" "\x7d" (← formEntries es)
  | .frozen es => do
    return "frozendict.frozendict(" ++ bracketed "\x7b" "\x7d" (← formEntries es) ++ ")"
  | .capability c => .ok c.written
  | .capabilities s => .ok <|
    if s.isEmpty then "frozenset()"
    else "frozenset(" ++ bracketed "\x7b" "\x7d" (s.toList.map Capability.written) ++ ")"
  | .effect e => e.form
  | .chain c => c.form
  | .function _ => .ok "<fn>"
  | .handler h => h.form
  | .handled s n => do
    return recordForm "Handled" [("state", ← s.form), ("next", ← n.form)]
  | .declined => .ok "NOT_MINE"
  | .result v o => do
    return recordForm "RunResult" [("value", ← v.form), ("output", ← o.form)]
  | .cell _ => .ok "<cell>"
  | .refusal _ r => .ok (r.typeName ++ "(" ++ Text.quoted r.message ++ ")")
termination_by structural v => v

/-- The forms of a list of values. -/
def formItems : List Value → Except TextFault (List String)
  | [] => .ok []
  | x :: xs => do return (← x.form) :: (← formItems xs)
termination_by structural xs => xs

/-- The forms of a list of entries, the key of each before its value. -/
def formEntries : List (Value × Value) → Except TextFault (List String)
  | [] => .ok []
  | (k, v) :: es => do return ((← k.form) ++ ": " ++ (← v.form)) :: (← formEntries es)
termination_by structural es => es

/-- The keys of a list of entries, each with its form. -/
def formKeys : List (Value × Value) → List (Value × Except TextFault String)
  | [] => []
  | (k, _) :: es => (k, k.form) :: formKeys es
termination_by structural es => es

/-- An effect by its kind and fields. -/
def Effect.form : Effect → Except TextFault String
  | ⟨r, _⟩ => do return recordForm r.kind.name (← r.formFields)
termination_by structural e => e

/-- The fields of a request with their forms. -/
def Request.formFields : Request → Except TextFault (List (String × String))
  | .log m => do return [("message", ← m.form)]
  | .loudLog m v => do return [("message", ← m.form), ("volume", ← v.form)]
  | .writeLine t => do return [("text", ← t.form)]
  | .readLine => .ok []
  | .beep => .ok []
  | .get k => do return [("key", ← k.form)]
  | .put k v => do return [("key", ← k.form), ("value", ← v.form)]
  | .modify k f => do return [("key", ← k.form), ("func", ← f.form)]
  | .poke k => do return [("key", ← k.form)]
  | .tick n => do return [("amount", ← n.form)]
  | .custom _ _ p => do return [("payload", ← p.form)]
termination_by structural r => r

/-- A chain by its value or its effect. -/
def Chain.form : Chain → Except TextFault String
  | .done v _ => do return recordForm "Done" [("value", ← v.form)]
  | .suspended e _ => do return recordForm "Suspended" [("effect", ← e.form)]
termination_by structural c => c

/-- A handler by its type and what it was made from. -/
def Handler.form : Handler → Except TextFault String
  | .collector _ => .ok "PureLogHandler()"
  | .emitter _ level _ => do return recordForm "LoguruLogHandler" [("level", ← level.form)]
  | .transcript _ lines =>
    .ok (recordForm "PureConsoleHandler" [("inputs", toString lines.length)])
  | .stream _ _ => .ok "StreamConsoleHandler()"
  | .store _ initial => do
    -- The keys are put in order before any of them is shown.
    let keys ← sorted (fun a b => a.1.less b.1) (formKeys initial)
    return recordForm "PureStateHandler" [("keys", bracketed "[" "]" (← keys.mapM Prod.snd))]
  | .counter _ => .ok "CounterHandler()"
  | .recorder _ _ _ => .ok "RecordingHandler()"
  | .pair _ first second => do
    return "CombinedHandler" ++ bracketed "(" ")" [← first.form, ← second.form]
  | .custom _ m => .ok <|
    match m.base with
    | .transcript => recordForm "PureConsoleHandler" [("inputs", "0")]
    | .store => recordForm "PureStateHandler" [("keys", "[]")]
    | .plain | .simple | .collector => m.name ++ "()"
termination_by structural h => h

end

/-- The form of a value as text of its own: a text is itself, a refusal its message. -/
def Value.shown : Value → Except TextFault String
  | .text s => .ok s
  | .refusal _ r => .ok r.message
  | v => v.form

/-- A text cut to a number of characters with three dots in the place of the rest.  A limit below
three cuts from the end of the text. -/
def truncated (s : String) (limit : Int) : String :=
  if s.length ≤ limit then s
  else
    -- The dots take three places of the limit.
    let keep := limit - 3
    let count := if 0 ≤ keep then keep.toNat else (s.length + keep).toNat
    String.ofList (s.toList.take count) ++ "..."

/-- The written form, cut to a number of characters. -/
def Value.truncated (v : Value) (limit : Int) : Except TextFault String :=
  v.form.map (EffectHandlers.truncated · limit)

/-! ### Texts of records -/

/-- A text in a record that is put into words by whoever reads it, and not when it is made: the
reader is told if there is none. -/
def orUnprintable : Except TextFault String → String
  | .ok s => s
  | .error _ => "<unprintable>"

/-- A handler in a record. -/
def Handler.written (h : Handler) : String := orUnprintable h.form

end EffectHandlers
