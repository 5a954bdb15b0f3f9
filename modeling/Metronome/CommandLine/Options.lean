/-!
# Options

How a row of arguments is read. An option has a long name after two dashes and perhaps a short one
after one dash. Short names may be written together, and the last of them may take a value. A value
is the rest of the argument or the next argument, which then must not look like an option.

Arguments are read from left to right, and the first that asks for help or is wrong ends the reading
(`Stop`).
-/

namespace Metronome.CommandLine

/-- Why arguments are not acted on. -/
inductive Stop
  /-- They ask for help. -/
  | help
  /-- They are wrong. -/
  | misuse
deriving DecidableEq

/-- What an option does to what has been gathered. Nothing comes of a value that is refused, nor of
an option that must not come twice. -/
inductive Effect (σ : Type)
  /-- It asks for help. -/
  | help
  /-- It takes no value. -/
  | flag (apply : σ → Option σ)
  /-- It takes a value. -/
  | value (apply : String → σ → Option σ)

/-- An option. -/
structure Opt (σ : Type) where
  /-- Its long name. -/
  long : String
  /-- Its short name. -/
  short : Option Char
  /-- What it does. -/
  effect : Effect σ

/-- What waits for a value. -/
abbrev Waiting (σ : Type) := Option (String → σ → Option σ)

variable {σ : Type}

/-- What has been gathered, unless it was refused. -/
def accepted (gathered : Option σ) : Except Stop σ :=
  match gathered with
  | some s => .ok s
  | none => .error .misuse

/-- Reads a long name, perhaps with a value after an equals sign. -/
def readLong (opts : List (Opt σ)) (s : σ) (arg : List Char) : Except Stop (σ × Waiting σ) :=
  let (name, rest) := arg.span (· != '=')
  match opts.find? fun o => o.long == String.ofList name with
  | none => .error .misuse
  | some o =>
    match o.effect, rest with
    | .help, [] => .error .help
    | .flag apply, [] => (accepted (apply s)).map (·, none)
    | .value apply, [] => .ok (s, some apply)
    | .value apply, _ :: value => (accepted (apply (String.ofList value) s)).map (·, none)
    | _, _ => .error .misuse

/-- Reads short names. -/
def readShort (opts : List (Opt σ)) : σ → List Char → Except Stop (σ × Waiting σ)
  | s, [] => .ok (s, none)
  | s, c :: cs =>
    match opts.find? fun o => o.short == some c with
    | none => .error .misuse
    | some o =>
      match o.effect, cs with
      | .help, _ => .error .help
      | .flag apply, cs => do readShort opts (← accepted (apply s)) cs
      | .value apply, [] => .ok (s, some apply)
      | .value apply, '=' :: value => (accepted (apply (String.ofList value) s)).map (·, none)
      | .value apply, value => (accepted (apply (String.ofList value) s)).map (·, none)

/-- Whether an argument looks like an option. A lone dash does not. -/
def looksLikeOption (arg : String) : Bool :=
  match arg.toList with
  | '-' :: _ :: _ => true
  | _ => false

/-- Reads arguments up to the name of a command: what has been gathered, and the command with the
arguments after it. Two dashes alone end the options, and nothing may follow them. -/
def readOptions (opts : List (Opt σ)) (commands : List String) :
    Waiting σ → σ → List String → Except Stop (σ × Option (String × List String))
  | none, s, [] => .ok (s, none)
  | some _, _, [] => .error .misuse
  | some apply, s, arg :: args =>
    if looksLikeOption arg then .error .misuse
    else do readOptions opts commands none (← accepted (apply arg s)) args
  | none, s, arg :: args =>
    if commands.contains arg then .ok (s, some (arg, args))
    else
      match arg.toList with
      | ['-', '-'] => if args.isEmpty then .ok (s, none) else .error .misuse
      | '-' :: '-' :: name => do
        let (s, waiting) ← readLong opts s name
        readOptions opts commands waiting s args
      | '-' :: c :: cs => do
        let (s, waiting) ← readShort opts s (c :: cs)
        readOptions opts commands waiting s args
      | _ => .error .misuse

end Metronome.CommandLine
