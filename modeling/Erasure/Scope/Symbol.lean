import Erasure.Syntax.Query

/-!
Symbols: what a name stands for, with all the declarations that contribute to it. The kind of a
declaration decides which others of the same name it merges with.
-/

namespace Erasure

/-- Index of a symbol of one file. -/
abbrev SymbolId := Nat

/-- Index of a scope of one file. -/
abbrev ScopeId := Nat

/-- What a symbol is declared as. -/
inductive SymbolFlag where
  | functionVariable | blockVariable | property | enumMember | function | class_ | interface
  | constEnum | regularEnum | valueModule | typeModule | typeLiteral | method | constructor | getter
  | setter | typeParameter | typeAlias | alias
  deriving DecidableEq, Inhabited

/-- A set of flags. -/
abbrev SymbolFlags := List SymbolFlag

namespace SymbolFlags

def enum : SymbolFlags := [.constEnum, .regularEnum]

def anyVariable : SymbolFlags := [.functionVariable, .blockVariable]

def accessors : SymbolFlags := [.getter, .setter]

def modules : SymbolFlags := [.valueModule, .typeModule]

/-- Symbols that exist when the program runs. -/
def value : SymbolFlags :=
  anyVariable ++ [.property, .enumMember, .function, .class_] ++ enum ++ [.valueModule, .method] ++
    accessors

/-- Symbols that name types. -/
def type : SymbolFlags :=
  [.class_, .interface] ++ enum ++ [.enumMember, .typeLiteral, .typeParameter, .typeAlias]

/-- Symbols that can stand before a dot in the name of a type. -/
def namespaces : SymbolFlags := modules ++ enum

def without (flags removed : SymbolFlags) : SymbolFlags :=
  flags.filter fun f => !removed.contains f

def intersects (flags others : SymbolFlags) : Bool := flags.any others.contains

def insert (flags : SymbolFlags) (f : SymbolFlag) : SymbolFlags :=
  if flags.contains f then flags else flags ++ [f]

end SymbolFlags

inductive DeclarationKind where
  | var | let_ | const | using_ | parameter | catchVariable | function (hasBody : Bool) | class_
  | interface | typeAlias | enum (isConst : Bool) | namespace_ (isInstantiated : Bool)
  | importAlias (isTypeOnly : Bool) | typeParameter | enumMember | property (isReadonly : Bool)
  | method (hasBody : Bool) | getter | setter
  deriving DecidableEq, Inhabited

namespace DeclarationKind

def isBlockVariable : DeclarationKind → Bool
  | let_ | const | using_ => true
  | _ => false

def isConstant : DeclarationKind → Bool
  | const | using_ => true
  | _ => false

/-- Declarations of functions that can be called. -/
def isImplementation : DeclarationKind → Bool
  | function hasBody | method hasBody => hasBody
  | _ => false

/-- Declarations that exist when the program runs. -/
def isValue : DeclarationKind → Bool
  | interface | typeAlias | typeParameter => false
  | namespace_ isInstantiated => isInstantiated
  | _ => true

def isImport : DeclarationKind → Bool
  | importAlias _ => true
  | _ => false

def ofVariable : VariableKind → DeclarationKind
  | .var => var
  | .let_ => let_
  | .const => const
  | .using_ | .awaitUsing => using_

/-- What a declaration makes of its symbol. -/
def flag : DeclarationKind → SymbolFlag
  | var | parameter | catchVariable => .functionVariable
  | let_ | const | using_ => .blockVariable
  | function _ => .function
  | class_ => .class_
  | interface => .interface
  | typeAlias => .typeAlias
  | enum isConst => if isConst then .constEnum else .regularEnum
  | namespace_ isInstantiated => if isInstantiated then .valueModule else .typeModule
  | importAlias _ => .alias
  | typeParameter => .typeParameter
  | enumMember => .enumMember
  | property _ => .property
  | method _ => .method
  | getter => .getter
  | setter => .setter

/-- What a symbol of the same name must not be for a declaration to merge with it. -/
def excludes : DeclarationKind → SymbolFlags
  | var => SymbolFlags.value.without [.functionVariable]
  | let_ | const | using_ | parameter | catchVariable | property _ => SymbolFlags.value
  | function _ => SymbolFlags.value.without [.function, .valueModule, .class_]
  | class_ =>
      (SymbolFlags.value ++ SymbolFlags.type).without [.valueModule, .interface, .function]
  | interface => SymbolFlags.type.without [.interface, .class_]
  | typeAlias => SymbolFlags.type
  | enum false => (SymbolFlags.value ++ SymbolFlags.type).without [.regularEnum, .valueModule]
  | enum true => (SymbolFlags.value ++ SymbolFlags.type).without [.constEnum]
  | namespace_ true =>
      SymbolFlags.value.without [.function, .class_, .regularEnum, .valueModule]
  | namespace_ false => []
  | importAlias _ => [.alias]
  | typeParameter => SymbolFlags.type.without [.typeParameter]
  | enumMember => SymbolFlags.value ++ SymbolFlags.type
  | method _ => SymbolFlags.value.without [.method]
  | getter => SymbolFlags.value.without [.setter]
  | setter => SymbolFlags.value.without [.getter]

end DeclarationKind

/-- One declaration of a symbol. -/
structure Declaration where
  /-- The node of the name, or of the member for members of classes and enums. -/
  node : NodeId
  kind : DeclarationKind
  nameSpan : Span
  span : Span
  /-- The scope in which the declaration is written. -/
  scope : ScopeId
  isAmbient : Bool
  deriving DecidableEq, Inhabited

/-- An implementation that is not ambient: a name has at most one. -/
def Declaration.isImplementation (d : Declaration) : Bool :=
  d.kind.isImplementation && !d.isAmbient

/-- Symbols by name, in the order of their declaration. -/
structure SymbolTable where
  entries : List (String × SymbolId) := []
  deriving DecidableEq, Inhabited

namespace SymbolTable

def find? (t : SymbolTable) (name : String) : Option SymbolId := t.entries.lookup name

def contains (t : SymbolTable) (name : String) : Bool := (t.find? name).isSome

/-- Add a name at the end, or change what it stands for. -/
def insert (t : SymbolTable) (name : String) (id : SymbolId) : SymbolTable :=
  if t.contains name then
    ⟨t.entries.map fun e => if e.1 = name then (name, id) else e⟩
  else ⟨t.entries ++ [(name, id)]⟩

end SymbolTable

structure Symbol where
  name : String
  flags : SymbolFlags
  declarations : List Declaration := []
  isExported : Bool := false
  /-- The namespace or enum that the symbol is a member of. -/
  parent? : Option SymbolId := none
  /-- Exports of a namespace, members of an enum, static members of a class. -/
  exports : SymbolTable := {}
  /-- Members of the instances of a class. -/
  members : SymbolTable := {}
  deriving Inhabited

namespace Symbol

def has (s : Symbol) (flags : SymbolFlags) : Bool := s.flags.intersects flags

def isConstEnum (s : Symbol) : Bool := s.has [.constEnum]

def isAlias (s : Symbol) : Bool := s.has [.alias]

def declaration? (s : Symbol) : Option Declaration := s.declarations.head?

/-- The first declaration that exists when the program runs. -/
def valueDeclaration? (s : Symbol) : Option Declaration :=
  s.declarations.find? fun d => d.kind.isValue

/-- All declarations are imports. -/
def isImport (s : Symbol) : Bool :=
  !s.declarations.isEmpty && s.declarations.all fun d => d.kind.isImport

end Symbol
end Erasure
