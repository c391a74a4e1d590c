import SpendTrace.CommandLine.Arguments

/-!
# Reading command lines

Command lines are read from left to right, and the first fault decides. The value of an option may
follow it as an argument of its own; such a value is only looked at when the next option, the link
or the end of the line is reached, so that an unknown argument behind it is reported first.
Conflicts and missing arguments are looked for at the end.

* `parse`: the arguments of a command line, or why it is refused.
-/

namespace SpendTrace.CommandLine

open Service (Endpoint)

/-! ## Refusals -/

/-- Why a command line is refused, or what it asks for instead of a view. -/
inductive Refusal where
  | missingRequiredArgument
  | argumentConflict
  /-- An option lacks its value. -/
  | invalidValue
  /-- A value is not of its option's type. -/
  | valueValidation
  | unknownArgument
  /-- A switch has a value. -/
  | tooManyValues
  | displayHelp
  | displayVersion
  deriving DecidableEq, Repr

def Refusal.exitCode : Refusal → UInt32
  | displayHelp => 0
  | displayVersion => 0
  | _ => 2

/-! ## Options -/

/-- The options that take a value. -/
inductive Setting where
  | tx
  | input
  | step
  | server
  | apiPrefix
  deriving DecidableEq, Repr

/-- The options that do not. -/
inductive Switch where
  | automatic
  | toEnd
  | noColor
  | verbose
  | help
  | version
  deriving DecidableEq, Repr

def settings : List (String × Setting) :=
  [("tx", .tx), ("input", .input), ("step", .step), ("server", .server), ("api-prefix", .apiPrefix)]

def switches : List (String × Switch) :=
  [("automatic", .automatic), ("to-end", .toEnd), ("no-color", .noColor), ("verbose", .verbose),
    ("help", .help), ("version", .version)]

/-- The switches that have a letter. -/
def letters : List (Char × Switch) :=
  [('v', .verbose), ('h', .help), ('V', .version)]

/-! ## The line so far -/

/-- An option whose value has not been looked at, or has not even been reached. -/
structure Pending where
  setting : Setting
  value : Option String

structure Draft where
  link : Option String := none
  tx : Option String := none
  input : Option UInt32 := none
  step : Option UInt64 := none
  server : Option String := none
  apiPrefix : Option String := none
  automatic : Bool := false
  toEnd : Bool := false
  noColor : Bool := false
  verbosity : Nat := 0
  pending : Option Pending := none
  /-- Whether the options have been declared to be over. -/
  optionsEnded : Bool := false

namespace Draft

/-- Fills a place that can be filled once. -/
def once {α : Type} (place : Option α) (value : Option α) : Except Refusal (Option α) :=
  match place with
  | some _ => .error .argumentConflict
  | none =>
    match value with
    | some a => .ok (some a)
    | none => .error .valueValidation

/-- Turns on a switch that can be turned on once. -/
def turnOn (on : Bool) : Except Refusal Bool :=
  if on then .error .argumentConflict else .ok true

/-- The input index that a text writes; a sign is allowed. -/
def inputIndex? (s : String) : Option UInt32 :=
  (Text.signed? s.toList).bind fun i =>
    if 0 ≤ i ∧ i.toNat < UInt32.size then some (UInt32.ofNat i.toNat) else none

/-- Gives a setting a value. -/
def assign (d : Draft) (setting : Setting) (value : String) : Except Refusal Draft :=
  match setting with
  | .tx => do .ok { d with tx := ← once d.tx (some value) }
  | .input => do .ok { d with input := ← once d.input (inputIndex? value) }
  | .step => do .ok { d with step := ← once d.step (Text.uint64? value.toList) }
  | .server => do .ok { d with server := ← once d.server (some value) }
  | .apiPrefix => do .ok { d with apiPrefix := ← once d.apiPrefix (some value) }

/-- Looks at the value that was put off, if any. -/
def resolve (d : Draft) : Except Refusal Draft :=
  match d.pending with
  | none => .ok d
  | some ⟨_, none⟩ => .error .invalidValue
  | some ⟨setting, some value⟩ => { d with pending := none }.assign setting value

def switch (d : Draft) (s : Switch) : Except Refusal Draft := do
  let d ← d.resolve
  match s with
  | .automatic => .ok { d with automatic := ← turnOn d.automatic }
  | .toEnd => .ok { d with toEnd := ← turnOn d.toEnd }
  | .noColor => .ok { d with noColor := ← turnOn d.noColor }
  | .verbose => .ok { d with verbosity := min 255 (d.verbosity + 1) }
  | .help => .error .displayHelp
  | .version => .error .displayVersion

/-- An option by its name, with the value that is attached to it. -/
def option (d : Draft) (name : String) (attached : Option String) : Except Refusal Draft :=
  match settings.lookup name with
  | some setting => do
    let d ← d.resolve
    match attached with
    | some value => d.assign setting value
    | none => .ok { d with pending := some ⟨setting, none⟩ }
  | none =>
    match switches.lookup name with
    | none => .error .unknownArgument
    | some s =>
      match attached with
      | some _ => .error .tooManyValues
      | none => d.switch s

/-- Switches by their letters. -/
def cluster (d : Draft) (cs : List Char) : Except Refusal Draft :=
  cs.foldlM (fun d c =>
    match letters.lookup c with
    | some s => d.switch s
    | none => .error .unknownArgument) d

/-- An argument outside the options: the link, of which there is one. -/
def positional (d : Draft) (text : String) : Except Refusal Draft :=
  match d.link with
  | some _ => .error .unknownArgument
  | none => do
    let d ← d.resolve
    .ok { d with link := some text }

/-- An argument that is not an option: the value that is waited for, or the link. -/
def plain (d : Draft) (text : String) : Except Refusal Draft :=
  match d.pending with
  | some ⟨setting, none⟩ => .ok { d with pending := some ⟨setting, some text⟩ }
  | _ => d.positional text

/-- The next argument. -/
def argument (d : Draft) (text : String) : Except Refusal Draft :=
  if d.optionsEnded then d.positional text
  else
    match text.toList with
    | ['-', '-'] => .ok { d with optionsEnded := true }
    | '-' :: '-' :: rest =>
      match Text.cut? ['='] rest with
      | some (name, value) => d.option (String.ofList name) (some (String.ofList value))
      | none => d.option (String.ofList rest) none
    | '-' :: c :: cs => d.cluster (c :: cs)
    | _ => d.plain text

/-! ## The end of the line -/

/-- Whether arguments were given that exclude each other. -/
def hasConflict (d : Draft) : Bool :=
  (d.link.isSome && (d.tx.isSome || d.input.isSome || d.step.isSome || d.automatic)) ||
    (d.step.isSome && d.automatic)

/-- Refuses a line that excludes itself, or that names no view. -/
def check (d : Draft) : Except Refusal Unit :=
  if d.hasConflict then .error .argumentConflict
  else if d.link.isNone && d.tx.isNone then .error .missingRequiredArgument
  else .ok ()

/-- What the line says, with the defaults filled in. The environment may name the server. -/
def arguments (d : Draft) (serverSetting : Option String) : Arguments where
  linkText := d.link
  tx := d.tx
  input := d.input.getD 0
  step := d.step.getD 0
  automatic := d.automatic
  endpoint :=
    { server := (d.server <|> serverSetting).getD Endpoint.defaultServer
      apiPrefix := d.apiPrefix.getD Endpoint.defaultApiPrefix }
  toEnd := d.toEnd
  noColor := d.noColor
  verbosity := d.verbosity

/-- The whole line. -/
def finish (d : Draft) (serverSetting : Option String) : Except Refusal Arguments := do
  let d ← d.resolve
  d.check
  .ok (d.arguments serverSetting)

end Draft

/-- The arguments of a command line. The server is that of the option, of the environment or the
default one, in this order. -/
def parse (serverSetting : Option String) (line : List String) : Except Refusal Arguments := do
  let d ← line.foldlM Draft.argument {}
  d.finish serverSetting

end SpendTrace.CommandLine
