import Erasure.CommandLine.Path
import Erasure.Options

/-!
Arguments of the command line. An option takes its value from the same argument or from the next
one; an argument is complete, and its value is looked at, when the next one begins.
-/

namespace Erasure.CommandLine

/-- Options without a value. -/
inductive Flag where
  | json | removeComments | strict | noEmit | noEmitOnError | preserveConstEnums
  | verbatimModuleSyntax
  deriving DecidableEq

/-- Options with a value. -/
inductive Parameter where
  | target | moduleKind | pretty | useDefineForClassFields
  deriving DecidableEq

/-- What the name of an option stands for. -/
inductive Meaning where
  | flag (f : Flag)
  | parameter (p : Parameter)
  | help
  | version
  deriving DecidableEq

namespace Meaning

/-- The option of a name after two dashes. -/
def ofLong? : String → Option Meaning
  | "json" => some (.flag .json)
  | "removeComments" | "remove-comments" => some (.flag .removeComments)
  | "strict" => some (.flag .strict)
  | "noEmit" | "no-emit" => some (.flag .noEmit)
  | "noEmitOnError" | "no-emit-on-error" => some (.flag .noEmitOnError)
  | "preserveConstEnums" | "preserve-const-enums" => some (.flag .preserveConstEnums)
  | "verbatimModuleSyntax" | "verbatim-module-syntax" => some (.flag .verbatimModuleSyntax)
  | "target" => some (.parameter .target)
  | "module" => some (.parameter .moduleKind)
  | "pretty" => some (.parameter .pretty)
  | "useDefineForClassFields" | "use-define-for-class-fields" =>
      some (.parameter .useDefineForClassFields)
  | "help" => some .help
  | "version" => some .version
  | _ => none

/-- The option of a letter after one dash. -/
def ofShort? : Char → Option Meaning
  | 't' => some (.parameter .target)
  | 'm' => some (.parameter .moduleKind)
  | 'h' => some .help
  | 'V' => some .version
  | _ => none

end Meaning

/-- Why arguments do not lead to a compilation. -/
inductive Refusal where
  | missingInput
  | unknownArgument
  | invalidValue
  | repeatedOption
  | unexpectedValue
  | helpRequested
  | versionRequested
  deriving DecidableEq

/-- The options that were given. -/
structure Settings where
  flags : List Flag := []
  target? : Option ScriptTarget := none
  moduleKind? : Option ModuleKind := none
  pretty? : Option Bool := none
  useDefineForClassFields? : Option Bool := none
  deriving DecidableEq

/-- What the command line asks for. -/
structure Arguments extends Settings where
  input : String
  output? : Option String := none
  deriving DecidableEq

/-- Value of `--target`. -/
def parseTarget? (value : String) : Option ScriptTarget :=
  match Text.lower value with
  | "es3" => some .es3
  | "es5" => some .es5
  | "es2015" | "es6" => some .es2015
  | "es2016" => some .es2016
  | "es2017" => some .es2017
  | "es2018" => some .es2018
  | "es2019" => some .es2019
  | "es2020" => some .es2020
  | "es2021" => some .es2021
  | "es2022" => some .es2022
  | "es2023" => some .es2023
  | "es2024" => some .es2024
  | "esnext" | "es-next" => some .esNext
  | _ => none

/-- Value of `--module`. -/
def parseModuleKind? (value : String) : Option ModuleKind :=
  match Text.lower value with
  | "none" => some .none
  | "commonjs" | "common-js" => some .commonJS
  | "amd" => some .amd
  | "umd" => some .umd
  | "system" => some .system
  | "es2015" | "es6" => some .es2015
  | "es2020" => some .es2020
  | "es2022" => some .es2022
  | "esnext" | "es-next" => some .esNext
  | "node16" | "node-16" => some .node16
  | "node18" | "node-18" => some .node18
  | "nodenext" | "node-next" => some .nodeNext
  | "preserve" => some .preserve
  | _ => none

/-- Value of an option that is on or off; it is on without a value. -/
def parseSwitch? : String → Option Bool
  | "true" => some true
  | "false" => some false
  | _ => none

namespace Settings

/-- Set a value once: a second value is refused before it is read. -/
def put {α : Type} (old : Option α) (value : Option α) (update : α → Settings) :
    Except Refusal Settings :=
  if old.isSome then .error .repeatedOption
  else (value.map update).elim (.error .invalidValue) .ok

/-- Set an option. The target and the module system need a value. -/
def set (s : Settings) (p : Parameter) (value? : Option String) : Except Refusal Settings :=
  match p, value? with
  | .target, none | .moduleKind, none => .error .invalidValue
  | .target, some v => put s.target? (parseTarget? v) fun t => { s with target? := some t }
  | .moduleKind, some v =>
      put s.moduleKind? (parseModuleKind? v) fun m => { s with moduleKind? := some m }
  | .pretty, v =>
      put s.pretty? (parseSwitch? (v.getD "true")) fun b => { s with pretty? := some b }
  | .useDefineForClassFields, v =>
      put s.useDefineForClassFields? (parseSwitch? (v.getD "true")) fun b =>
        { s with useDefineForClassFields? := some b }

def raise (s : Settings) (f : Flag) : Except Refusal Settings :=
  if f ∈ s.flags then .error .repeatedOption else .ok { s with flags := f :: s.flags }

end Settings

/-- An argument that is not complete before the next one begins. -/
inductive Pending where
  | nothing
  | path (text : String)
  | parameter (p : Parameter) (value? : Option String)

/-- The arguments read so far. -/
structure Reading where
  settings : Settings := {}
  /-- The complete paths in order. -/
  paths : List String := []
  pending : Pending := .nothing
  /-- After `--` every argument is a path. -/
  isEscaped : Bool := false

namespace Reading

/-- Complete the last argument. -/
def complete (r : Reading) : Except Refusal Reading :=
  match r.pending with
  | .nothing => .ok r
  | .path text =>
      if text.isEmpty then .error .invalidValue
      else .ok { r with paths := r.paths ++ [text], pending := .nothing }
  | .parameter p value? => do
      let settings ← r.settings.set p value?
      return { r with settings, pending := .nothing }

/-- The number of paths with one that is not complete yet. -/
def pathCount (r : Reading) : Nat :=
  r.paths.length + match r.pending with
    | .path _ => 1
    | _ => 0

/-- Take a path. There are two of them at most. -/
def path (r : Reading) (text : String) : Except Refusal Reading := do
  if 2 ≤ r.pathCount then throw .unknownArgument
  let r ← r.complete
  return { r with pending := .path text }

/-- Take an option with the value in the same argument, if there is one. -/
def option (r : Reading) (m : Meaning) (attached? : Option String) : Except Refusal Reading := do
  match m, attached? with
  | .parameter p, none =>
      let r ← r.complete
      return { r with pending := .parameter p none }
  | .parameter p, some value =>
      let r ← r.complete
      return { r with settings := ← r.settings.set p (some value) }
  | _, some _ => throw .unexpectedValue
  | .flag f, none =>
      let r ← r.complete
      return { r with settings := ← r.settings.raise f }
  | .help, none => do
      let _ ← r.complete
      throw .helpRequested
  | .version, none => do
      let _ ← r.complete
      throw .versionRequested

/-- Take an argument that starts with two dashes. -/
def long (r : Reading) (text : List Char) : Except Refusal Reading :=
  let name := String.ofList (text.takeWhile (· != '='))
  let attached? := match text.dropWhile (· != '=') with
    | [] => none
    | _ :: value => some (String.ofList value)
  match Meaning.ofLong? name with
  | none => .error .unknownArgument
  | some m => r.option m attached?

/-- Take the letters after a single dash. What follows an option with a value is that value, with
an equals sign before it or without. -/
def short (r : Reading) : List Char → Except Refusal Reading
  | [] => .ok r
  | c :: cs =>
      match Meaning.ofShort? c, cs with
      | none, _ => .error .unknownArgument
      | some (.parameter p), [] => r.option (.parameter p) none
      | some (.parameter p), '=' :: value => r.option (.parameter p) (some (String.ofList value))
      | some (.parameter p), value => r.option (.parameter p) (some (String.ofList value))
      | some m, rest => do (← r.option m none).short rest

/-- Take an argument that is a value or a path. -/
def plain (r : Reading) (text : String) : Except Refusal Reading :=
  match r.pending with
  | .parameter p none => .ok { r with pending := .parameter p (some text) }
  | _ => r.path text

/-- Take the next argument. -/
def step (r : Reading) (arg : String) : Except Refusal Reading :=
  if r.isEscaped then r.path arg
  else match arg.toList with
    | ['-', '-'] => .ok { r with isEscaped := true }
    | '-' :: '-' :: text => r.long text
    | '-' :: c :: text => r.short (c :: text)
    | _ => r.plain arg

/-- End the arguments. The input is needed. -/
def finish (r : Reading) : Except Refusal Arguments := do
  let r ← r.complete
  match r.paths with
  | [] => throw .missingInput
  | input :: rest => return { r.settings with input, output? := rest.head? }

end Reading

namespace Arguments

/-- Read the arguments that follow the program's name. -/
def parse (args : List String) : Except Refusal Arguments := do
  (← args.foldlM Reading.step {}).finish

def has (a : Arguments) (f : Flag) : Bool := a.flags.contains f

/-- Options with those of the command line in place of what they were. -/
def overrides (a : Arguments) (o : Options) : Options :=
  { o with
    target := a.target?.getD o.target
    moduleKind := a.moduleKind?.getD o.moduleKind
    removeComments := o.removeComments || a.has .removeComments
    strict := o.strict || a.has .strict
    noEmit := o.noEmit || a.has .noEmit
    noEmitOnError := o.noEmitOnError || a.has .noEmitOnError
    keepConstEnums := o.keepConstEnums || a.has .preserveConstEnums
    verbatimModuleSyntax := o.verbatimModuleSyntax || a.has .verbatimModuleSyntax
    useDefineForClassFields? := a.useDefineForClassFields?.or o.useDefineForClassFields? }

/-- Where the output goes: next to the input, with `ts` replaced by `js` or with `js` added. -/
def outputPath (a : Arguments) : String :=
  a.output?.getD ((Path.replaceExtension? a.input "ts" "js").getD (a.input ++ ".js"))

end Arguments
end Erasure.CommandLine
