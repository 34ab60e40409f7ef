/- A catalogue of named functions to build schemas from, and a host that answers for them and for
   functions that read their answers from a script. -/
import Conformance.Value.Operators
import Conformance.Value.Pretty
import Conformance.Verification.Call
namespace Conformance

structure Entry where
  kind : FuncKind
  signature : Option Signature
  answer : Value → Except Fault Value

namespace Entry

def func (e : Entry) (stamp : Nat := 0) : Func := ⟨e.kind, e.signature, stamp⟩

end Entry

namespace Catalogue

def positional (name : String) (required : Bool := true) : Parameter :=
  ⟨name, .positional, required⟩

def named (name : String) (required : Bool) : Parameter := ⟨name, .named, required⟩

def unary (name : String) (answer : Value → Except Fault Value) : Entry :=
  ⟨.function name, some [positional "v"], answer⟩

/-- A function that answers null, for its signature only. -/
def silent (name : String) (signature : Signature) : Entry :=
  ⟨.function name, some signature, fun _ => .ok .null⟩

def builtin (name : String) (signature : Option Signature)
    (answer : Value → Except Fault Value) : Entry :=
  ⟨.builtin name, signature, answer⟩

def classObject (name : String) (signature : Option Signature)
    (answer : Value → Except Fault Value) : Entry :=
  ⟨.classObject name, signature, answer⟩

def constant (v : Value) : Value → Except Fault Value := fun _ => .ok v

def text (s : String) : Value := .ofString s

def unlessText (passes : Bool) (reason : String) : Value :=
  if passes then .null else text reason

def isEven : Value → Bool
  | .bool b => !b
  | .int _ n => n % 2 == 0
  | _ => false

def positive (v : Value) : Except Fault Value := do
  return unlessText (← v.greater? (.ofInt 0)) "not positive"

def sumTwo (v : Value) : Except Fault Value := do
  let x ← v.atKey? "x"
  let y ← v.atKey? "y"
  return unlessText (!(← x.add? y).same (.ofInt 2)) "VERBOTEN"

def lowHigh (v : Value) : Except Fault Value := do
  let low ← v.atKey? "low"
  let high ← v.atKey? "high"
  return unlessText (!(← low.greater? high)) "low must not exceed high"

def portHost (v : Value) : Except Fault Value := do
  if ← v.holds? "port" then
    return unlessText (← v.holds? "host") "port without host"
  else return .null

def sawTexts : List (Value × Value) → Except Fault (List String)
  | [] => .ok []
  | (key, v) :: entries => do
    let shown ← Value.line? false key
    return (shown ++ "=" ++ v.pretty) :: (← sawTexts entries)

def saw (v : Value) : Except Fault Value :=
  match v.entries? with
  | none => .error (.noMember v.ownerText "items")
  | some entries => do
    let shown := ", ".intercalate (← sawTexts entries)
    return text s!"saw [{shown}]"

def atMostTwo (v : Value) : Except Fault Value := do
  let size ← v.length?
  return unlessText (size ≤ 2) s!"{size} keys is too many"

def isCallable : Value → Bool
  | .func _ => true
  | _ => false

def functions : List Entry := [
  unary "accept" (constant .null),
  unary "reject" (constant (text "rejected")),
  unary "empty_message" (constant (text "")),
  unary "positive" positive,
  unary "echo" (fun v => .ok (text s!"got {v.pretty}")),
  silent "opt_arg" [positional "v", positional "strict" false],
  silent "var_args" [⟨"args", .variadic, false⟩],
  silent "kw_default" [positional "v", named "k" false],
  silent "all_defaults" [positional "a" false, positional "b" false],
  silent "kw_required" [positional "v", named "k" true],
  silent "only_kwargs" [⟨"kw", .variadicNamed, false⟩],
  silent "nullary" [],
  silent "binary" [positional "a", positional "b"],
  unary "is_even" (fun v => .ok (.bool (isEven v))),
  unary "identity" .ok,
  unary "always" (constant (.bool true)),
  unary "never" (constant (.bool false)),
  unary "raise_value" (fun _ => .error (.raised .value "boom")),
  unary "raise_type" (fun _ => .error (.raised .type "bad type")),
  unary "raise_assert" (fun _ => .error (.raised .assertion "assertion text")),
  unary "raise_key" (fun _ => .error (.raised .key "'k'")),
  unary "sum_two" sumTwo,
  unary "low_high" lowHigh,
  unary "port_host" portHost,
  unary "saw" saw,
  unary "at_most_two" atMostTwo]

/-- Built-in functions and classes. Some do not tell their signature. -/
def builtins : List Entry := [
  builtin "len" (some [positional "obj"]) (fun v => do return .ofInt (← v.length?)),
  builtin "callable" (some [positional "obj"]) (fun v => .ok (.bool (isCallable v))),
  builtin "repr" (some [positional "obj"]) (fun v => do return text (← Value.line? false v)),
  classObject "str" none (fun v => do return text (← v.plainText?)),
  classObject "bool" none (fun v => .ok (.bool v.truthy))]

/-- Built-in functions and classes that are handed around, but have no answers here. -/
def unanswered : List Func := [
  ⟨.builtin "isinstance", some [positional "obj", positional "class_or_tuple"], 0⟩,
  ⟨.builtin "min", none, 0⟩,
  ⟨.builtin "sorted",
    some [positional "iterable", named "key" false, named "reverse" false], 0⟩,
  ⟨.builtin "divmod", some [positional "x", positional "y"], 0⟩,
  ⟨.builtin "globals", some [], 0⟩,
  ⟨.builtin "hash", some [positional "obj"], 0⟩,
  ⟨.classObject "int", none, 0⟩,
  ⟨.classObject "list", some [positional "iterable" false], 0⟩,
  ⟨.classObject "object", some [], 0⟩,
  ⟨.classObject "range", none, 0⟩]

def callMe : Entry := ⟨.object "CallMe", some [positional "v"], constant .null⟩

def callTwo : Entry :=
  ⟨.object "CallTwo", some [positional "a", positional "b"], constant .null⟩

def all : List Entry := functions ++ builtins ++ [callMe, callTwo]

def named? (name : String) : Option Func :=
  ((functions ++ builtins).map (·.func) ++ unanswered).find? (·.callName == name)

def object? (stamp : Nat) : String → Option Value
  | "plain" => some (.object "Plain" .plain stamp)
  | "broken" => some (.object "Broken" .refused stamp)
  | "fixed" => some (.object "Fixed" (.text "<fixed>") stamp)
  | "two_lines" => some (.object "TwoLines" (.text "line1\nline2") stamp)
  | "call_me" => some (.func (callMe.func stamp))
  | "call_two" => some (.func (callTwo.func stamp))
  | "cyclic_dict" => some (.loopMapping stamp)
  | "cyclic_list" => some (.loopList stamp)
  | _ => none

def answer (f : Func) (v : Value) : Except Fault Value :=
  match all.find? (·.kind = f.kind) with
  | some entry => entry.answer v
  | none => .error (.unbound f.callName)

end Catalogue

/-- A function that answers from a list, the last answer over and over. -/
structure Script where
  func : Func
  label : String
  answers : List Value
  used : Nat := 0

namespace Script

def next (s : Script) : Value :=
  (s.answers[s.used]? <|> s.answers.getLast?).getD .null

def advance (s : Script) : Script := { s with used := s.used + 1 }

def funcOf (stamp : Nat) : Func :=
  ⟨.function "scripted", some [Catalogue.positional "v"], stamp⟩

end Script

structure Tape where
  scripts : List Script := []
  calls : List (String × Value) := []

namespace Tape

def play (tape : Tape) (script : Script) (v : Value) : Tape where
  scripts := tape.scripts.map (fun s => if s.func = script.func then s.advance else s)
  calls := tape.calls ++ [(script.label, v)]

/-- Scripts answer for their functions, the catalogue for all others. -/
def host : Host Tape where
  answer f v := do
    let tape ← get
    match tape.scripts.find? (·.func = f) with
    | some script =>
      set (tape.play script v)
      return script.next
    | none => ofExcept (Catalogue.answer f v)

end Tape

end Conformance
