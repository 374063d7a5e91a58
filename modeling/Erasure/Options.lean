import Erasure.Text.Basic

/-!
Settings of a compilation and their reading from `name: value` pairs.
-/

namespace Erasure

/-- Language version of the output. -/
inductive ScriptTarget where
  | es3 | es5 | es2015 | es2016 | es2017 | es2018 | es2019 | es2020 | es2021 | es2022 | es2023
  | es2024 | esNext
  deriving DecidableEq, Inhabited

namespace ScriptTarget

def parse? (value : String) : Option ScriptTarget :=
  match Text.lower (Text.trim value) with
  | "es3" => some .es3
  | "es5" => some .es5
  | "es6" | "es2015" => some .es2015
  | "es2016" => some .es2016
  | "es2017" => some .es2017
  | "es2018" => some .es2018
  | "es2019" => some .es2019
  | "es2020" => some .es2020
  | "es2021" => some .es2021
  | "es2022" => some .es2022
  | "es2023" => some .es2023
  | "es2024" => some .es2024
  | "esnext" | "latest" => some .esNext
  | _ => none

/-- Whether class fields exist in this version. -/
def supportsClassFields : ScriptTarget → Bool
  | es2022 | es2023 | es2024 | esNext => true
  | _ => false

end ScriptTarget

/-- Module system of the output. -/
inductive ModuleKind where
  | none | commonJS | amd | umd | system | es2015 | es2020 | es2022 | esNext | node16 | node18
  | nodeNext | preserve
  deriving DecidableEq, Inhabited

namespace ModuleKind

def parse? (value : String) : Option ModuleKind :=
  match Text.lower (Text.trim value) with
  | "none" => some .none
  | "commonjs" => some .commonJS
  | "amd" => some .amd
  | "umd" => some .umd
  | "system" => some .system
  | "es6" | "es2015" => some .es2015
  | "es2020" => some .es2020
  | "es2022" => some .es2022
  | "esnext" => some .esNext
  | "node16" => some .node16
  | "node18" => some .node18
  | "nodenext" => some .nodeNext
  | "preserve" => some .preserve
  | _ => Option.none

/-- Whether `import` and `export` stay in the output. -/
def isESModule : ModuleKind → Bool
  | es2015 | es2020 | es2022 | esNext | preserve | none => true
  | _ => false

/-- Whether modules are lowered to assignments on `exports`. -/
def isCommonJSLike (m : ModuleKind) : Bool := !m.isESModule

end ModuleKind

structure Options where
  target : ScriptTarget := .esNext
  moduleKind : ModuleKind := .esNext
  strict : Bool := false
  alwaysStrict? : Option Bool := none
  strictNullChecks? : Option Bool := none
  removeComments : Bool := false
  noEmit : Bool := false
  noEmitOnError : Bool := false
  keepConstEnums : Bool := false
  isolatedModules : Bool := false
  verbatimModuleSyntax : Bool := false
  useDefineForClassFields? : Option Bool := none
  experimentalDecorators : Bool := false
  deriving DecidableEq, Inhabited

namespace Options

/-- Class fields are written as fields; this follows the target unless set. -/
def useDefineForClassFields (o : Options) : Bool :=
  o.useDefineForClassFields?.getD o.target.supportsClassFields

def alwaysStrict (o : Options) : Bool := o.alwaysStrict?.getD o.strict

def strictNullChecks (o : Options) : Bool := o.strictNullChecks?.getD o.strict

/-- Declarations of const enums stay in the output. -/
def preserveConstEnums (o : Options) : Bool :=
  o.keepConstEnums || o.isolatedModules || o.verbatimModuleSyntax

def parseBool? (value : String) : Option Bool :=
  match Text.lower value with
  | "true" => some true
  | "false" => some false
  | _ => none

/-- What became of a `name: value` pair. -/
inductive Setting where
  | applied
  | invalid
  | unknown
  deriving DecidableEq

/-- Take over a value that could be read. -/
def put {α : Type} (o : Options) (value : Option α) (update : α → Options) : Setting × Options :=
  match value with
  | some a => (.applied, update a)
  | none => (.invalid, o)

/-- Names that are accepted and have no effect. -/
def inert : List String :=
  ["noimplicitany", "nolib", "lib", "declaration", "sourcemap", "jsx", "noimplicitreturns",
    "skiplibcheck", "esmoduleinterop", "allowjs", "moduleresolution", "noimplicitthis",
    "allowunreachablecode", "allowunusedlabels", "nounusedlocals", "nounusedparameters"]

/-- Apply a pair. Names are compared without case, and of a list of values the first counts. -/
def apply (o : Options) (name value : String) : Setting × Options :=
  let first := Text.trim (String.ofList ((Text.splitOn ',' value.toList).headD []))
  let flag := parseBool? first
  match Text.lower name with
  | "target" => put o (ScriptTarget.parse? first) fun t => { o with target := t }
  | "module" => put o (ModuleKind.parse? first) fun m => { o with moduleKind := m }
  | "strict" => put o flag fun b => { o with strict := b }
  | "alwaysstrict" => put o flag fun b => { o with alwaysStrict? := some b }
  | "strictnullchecks" => put o flag fun b => { o with strictNullChecks? := some b }
  | "removecomments" => put o flag fun b => { o with removeComments := b }
  | "noemit" => put o flag fun b => { o with noEmit := b }
  | "noemitonerror" => put o flag fun b => { o with noEmitOnError := b }
  | "preserveconstenums" => put o flag fun b => { o with keepConstEnums := b }
  | "isolatedmodules" => put o flag fun b => { o with isolatedModules := b }
  | "verbatimmodulesyntax" => put o flag fun b => { o with verbatimModuleSyntax := b }
  | "usedefineforclassfields" => put o flag fun b => { o with useDefineForClassFields? := some b }
  | "experimentaldecorators" => put o flag fun b => { o with experimentalDecorators := b }
  | other => (if inert.contains other then .applied else .unknown, o)

/-- Apply pairs in order; those that are unknown or invalid change nothing. -/
def applyAll (o : Options) (pairs : List (String × String)) : Options :=
  pairs.foldl (fun o p => (o.apply p.1 p.2).2) o

end Options
end Erasure
