import SuiteTidy.Command.Usage
import SuiteTidy.Text.Closest
import SuiteTidy.Text.Integer

/-!
The options of a command line. A long option may have its value after an equals sign; short options
without values may be written together, and the last of them may have its value behind it.
-/

set_option autoImplicit false
set_option relaxedAutoImplicit false

namespace SuiteTidy.Options

inductive Kind where
  | flag
  | text
  | integer
deriving Repr, DecidableEq

/-- An option: its long name, its letter if it has one, and what it takes. -/
structure Spec where
  long : String
  letter : Option Char
  kind : Kind
deriving Repr, DecidableEq

def Spec.names (o : Spec) : List String :=
  ("--" ++ o.long) :: (o.letter.map fun c => "-" ++ String.singleton c).toList

def help : Spec := { long := "help", letter := none, kind := .flag }

/-- What stands on a command line: options in their order, each with its value if it has one, and
the other words. -/
structure Given where
  options : List (Spec × String) := []
  words : List String := []
deriving Inhabited

def Given.add (g : Given) (o : Spec) (value : String) : Given :=
  { g with options := g.options ++ [(o, value)] }

def splitEquals (cs : List Char) : List Char × Option (List Char) :=
  match cs.dropWhile (· != '=') with
  | [] => (cs, none)
  | _ :: value => (cs.takeWhile (· != '='), some value)

/-- What an option word leaves open: nothing, or a value for an option that is called by a name. -/
inductive Open where
  | nothing
  | value (o : Spec) (name : String)

def longWord (known : List Spec) (cs : List Char) (g : Given) : Except UsageFault (Given × Open) :=
  let (nameChars, value) := splitEquals cs
  let name := String.ofList nameChars
  match known.find? fun o => "--" ++ o.long == name with
  | none => .error (.unknownOption name (Text.closest name (known.map fun o => "--" ++ o.long)))
  | some o =>
    match o.kind, value with
    | .flag, some _ => .error (.needlessValue name)
    | .flag, none => .ok (g.add o "", .nothing)
    | _, some v => .ok (g.add o (String.ofList v), .nothing)
    | _, none => .ok (g, .value o name)

def letters (known : List Spec) (g : Given) : List Char → Except UsageFault (Given × Open)
  | [] => .ok (g, .nothing)
  | c :: cs =>
    let name := "-" ++ String.singleton c
    match known.find? fun o => o.letter == some c with
    | none => .error (.unknownOption name [])
    | some o =>
      if o.kind = .flag then letters known (g.add o "") cs
      else if cs.isEmpty then .ok (g, .value o name)
      else .ok (g.add o (String.ofList cs), .nothing)

def optionWord (known : List Spec) (word : String) (g : Given) :
    Except UsageFault (Given × Open) :=
  match word.toList with
  | '-' :: '-' :: cs => longWord known ('-' :: '-' :: cs) g
  | '-' :: cs => letters known g cs
  | _ => .ok (g, .nothing)

def isOption (word : String) : Bool := word.toList.head? = some '-' && decide (1 < word.length)

/-- Reads the words of a command line. After two dashes all words are taken as they are. -/
def read (known : List Spec) (g : Given) : List String → Except UsageFault Given
  | [] => .ok g
  | word :: rest =>
    if word = "--" then .ok { g with words := g.words ++ rest }
    else if isOption word then
      match optionWord known word g with
      | .error e => .error e
      | .ok (g, .nothing) => read known g rest
      | .ok (g, .value o name) =>
        match rest with
        | [] => .error (.missingValue name)
        | value :: rest => read known (g.add o value) rest
    else read known { g with words := g.words ++ [word] } rest

def Given.value? (g : Given) (long : String) : Option String :=
  (g.options.reverse.find? fun (o, _) => o.long == long).map (·.2)

def Given.has (g : Given) (long : String) : Bool := (g.value? long).isSome

def Given.integer? (g : Given) (long : String) : Option Int :=
  (g.value? long).bind Text.integer?

/-- Every option that takes an integer has one, and no word is left over. -/
def Given.check (g : Given) : Except UsageFault Unit := do
  g.options.forM fun (o, _) => do
    let value := (g.value? o.long).getD ""
    if o.kind = .integer && (Text.integer? value).isNone then .error (.notInteger o.names value)
  if !g.words.isEmpty then .error (.extraWords g.words)

end SuiteTidy.Options
