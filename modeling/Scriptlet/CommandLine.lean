import Scriptlet.Run.Limits
import Scriptlet.Text.Numeral

/-!
# Command lines

Reading the arguments of a command, from left to right. An option has a long name (`--name`) and maybe
a letter (`-n`). Its value, if it takes one, follows in the next argument or is attached: `--name=value`,
`-nvalue`, `-n=value`. Letters of options without value can share an argument. Nothing may be given
twice, names have to be complete, and there are no arguments besides options.
-/

namespace Scriptlet.CommandLine

inductive Stop where
  | usage
  | version
  | help
deriving DecidableEq, Repr

/-- What an option does to the settings `σ`. A value may be refused. -/
inductive Action (σ : Type) where
  | flag (set : σ → σ)
  | value (set : String → σ → Option σ)
  | stop (reason : Stop)

structure Opt (σ : Type) where
  long : String
  letter : Option Char := none
  action : Action σ

variable {σ : Type}

def general : List (Opt σ) :=
  [⟨"version", some 'V', .stop .version⟩, ⟨"help", some 'h', .stop .help⟩]

/-- Where reading stands: the settings so far, and the long names that have been given. -/
structure Progress (σ : Type) where
  settings : σ
  given : List String := []

def Progress.apply (p : Progress σ) (o : Opt σ) (effect : σ → Option σ) :
    Except Stop (Progress σ) :=
  if p.given.contains o.long then .error .usage
  else
    match effect p.settings with
    | some s => .ok ⟨s, o.long :: p.given⟩
    | none => .error .usage

structure Waiting (σ : Type) where
  opt : Opt σ
  set : String → σ → Option σ

def readLetters (opts : List (Opt σ)) (p : Progress σ) :
    List Char → Except Stop (Progress σ × Option (Waiting σ))
  | [] => .ok (p, none)
  | c :: cs =>
    match opts.find? (·.letter = some c) with
    | none => .error .usage
    | some o =>
      match o.action with
      | .stop reason => .error reason
      | .flag set => do readLetters opts (← p.apply o (some ∘ set)) cs
      | .value set =>
        match cs with
        | [] => .ok (p, some ⟨o, set⟩)
        | '=' :: value => return (← p.apply o (set (String.ofList value)), none)
        | value => return (← p.apply o (set (String.ofList value)), none)

def readLong (opts : List (Opt σ)) (p : Progress σ) (name : String) (attached : Option String) :
    Except Stop (Progress σ × Option (Waiting σ)) :=
  match opts.find? (·.long = name) with
  | none => .error .usage
  | some o =>
    match o.action, attached with
    | .stop reason, none => .error reason
    | .flag set, none => return (← p.apply o (some ∘ set), none)
    | .value set, none => .ok (p, some ⟨o, set⟩)
    | .value set, some value => return (← p.apply o (set value), none)
    | _, some _ => .error .usage

/-- Whether an argument cannot be the value of the option before it. -/
def looksLikeOption (arg : String) : Bool :=
  arg.startsWith "-" && arg ≠ "-"

def readArg (opts : List (Opt σ)) (p : Progress σ) (arg : String) :
    Except Stop (Progress σ × Option (Waiting σ)) :=
  match arg.toList with
  | '-' :: '-' :: body =>
    let name := String.ofList (body.takeWhile (· ≠ '='))
    match body.dropWhile (· ≠ '=') with
    | [] => readLong opts p name none
    | _ :: value => readLong opts p name (some (String.ofList value))
  | '-' :: c :: cs => readLetters opts p (c :: cs)
  | _ => .error .usage

/-- Reads the arguments that are left. `--` alone ends them. -/
def readArgs (opts : List (Opt σ)) : Progress σ → Option (Waiting σ) → List String → Except Stop σ
  | p, none, [] => .ok p.settings
  | _, some _, [] => .error .usage
  | p, some w, value :: rest =>
    if looksLikeOption value then .error .usage
    else do readArgs opts (← p.apply w.opt (w.set value)) none rest
  | p, none, arg :: rest =>
    if arg = "--" then if rest = [] then .ok p.settings else .error .usage
    else do
      let (p, waiting) ← readArg opts p arg
      readArgs opts p waiting rest

def settings (opts : List (Opt σ)) (usual : σ) (args : List String) : Except Stop σ :=
  readArgs (opts ++ general) ⟨usual, []⟩ none args

def numberOption (long : String) (set : Nat → σ → σ) : Opt σ :=
  ⟨long, none, .value fun text s =>
    (Text.naturalBelow? UInt64.size text.toList).map fun n => set n s⟩

def limitOptions (update : (Limits → Limits) → σ → σ) : List (Opt σ) :=
  [numberOption "step-budget" fun n => update ({ · with stepBudget := n }),
   numberOption "timeout-ms" fun n => update ({ · with timeoutMs := n }),
   numberOption "max-call-depth" fun n => update ({ · with maxCallDepth := n }),
   numberOption "max-output-bytes" fun n => update ({ · with maxOutputBytes := n }),
   numberOption "max-value-bytes" fun n => update ({ · with maxValueBytes := n })]

end Scriptlet.CommandLine
