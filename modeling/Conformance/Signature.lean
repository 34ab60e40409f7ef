/- Signatures of functions, and what a call with a single positional argument makes of them. -/
namespace Conformance

inductive ParameterKind
  | positional
  | variadic
  | named
  | variadicNamed
  deriving DecidableEq

structure Parameter where
  name : String
  kind : ParameterKind
  required : Bool
  deriving DecidableEq

abbrev Signature := List Parameter

inductive Misfit
  | tooMany
  | missing (names : List String)
  | missingNamed (names : List String)
  deriving DecidableEq

namespace Signature

def ofKind (s : Signature) (kind : ParameterKind) : List Parameter :=
  s.filter (fun p => p.kind = kind)

def requiredNames (ps : List Parameter) : List String :=
  (ps.filter (·.required)).map (·.name)

/-- The argument goes to the first positional parameter, or to a variadic one if there is none.
Every other positional parameter and every named one has to do without. -/
def misfit? (s : Signature) : Option Misfit :=
  let positional := s.ofKind .positional
  if positional.isEmpty && (s.ofKind .variadic).isEmpty then some .tooMany
  else
    match requiredNames (positional.drop 1), requiredNames (s.ofKind .named) with
    | [], [] => none
    | [], names => some (.missingNamed names)
    | names, _ => some (.missing names)

end Signature

inductive FuncKind
  | function (name : String)
  | builtin (name : String)
  | classObject (name : String)
  /-- An object of a class whose objects can be called. -/
  | object (className : String)
  deriving DecidableEq

/-- A callable thing. The stamp tells apart things that were made separately and agree otherwise;
some built-in ones do not tell their signature. -/
structure Func where
  kind : FuncKind
  signature : Option Signature
  stamp : Nat
  deriving DecidableEq

namespace Func

def misfit? (f : Func) : Option Misfit := f.signature.bind Signature.misfit?

/-- A call with one positional argument is not known to fail. -/
def acceptsOne (f : Func) : Bool := f.misfit?.isNone

def className (f : Func) : String :=
  match f.kind with
  | .function _ => "function"
  | .builtin _ => "builtin_function_or_method"
  | .classObject _ => "type"
  | .object className => className

def callName (f : Func) : String :=
  match f.kind with
  | .function name | .builtin name | .classObject name => name
  | .object className => s!"{className}.__call__"

end Func

end Conformance
