import SuiteTidy.Text.Blank
import SuiteTidy.Text.Case
import SuiteTidy.Text.Lines
import SuiteTidy.Text.Word

/-!
Mock data of a source text: constants whose name says that they stand in for something. A
declaration runs to the first line with a semicolon on which all brackets are closed, or to the end
of the text.
-/

set_option autoImplicit false
set_option relaxedAutoImplicit false

namespace SuiteTidy.Suite

open SuiteTidy.Text

inductive MockKind where
  | function
  | repository
  | object
  | array
  | primitive
deriving Repr, DecidableEq, Inhabited

def MockKind.word : MockKind → String
  | function => "function"
  | repository => "repository"
  | object => "object"
  | array => "array"
  | primitive => "primitive"

structure Mock where
  name : String
  content : String
  start : Nat
  stop : Nat
deriving Repr, DecidableEq, Inhabited

/-- The name of the constant that a line declares: blanks, the word `const`, blanks, a word, blanks,
and a colon or an equals sign. -/
def constantName? (line : String) : Option String := do
  let rest ← afterStart? (trimLeft line.toList) "const".toList
  let body := trimLeft rest
  let name := body.takeWhile isWord
  let after := trimLeft (body.dropWhile isWord)
  if body.length < rest.length ∧ name ≠ [] ∧ (after.head? = some ':' ∨ after.head? = some '=') then
    some (String.ofList name)
  else none

def mockWords : List String := ["mock", "test", "fixture", "stub", "spy"]

def endsWith (cs p : List Char) : Bool := startsWith cs.reverse p.reverse

/-- Whether a name starts or ends with one of the words, in any case. -/
def isMockName (name : String) : Bool :=
  let cs := lower name.toList
  mockWords.any fun w => startsWith cs w.toList || endsWith cs w.toList

def mockName? (line : String) : Option String := (constantName? line).filter isMockName

structure Balance where
  braces : Int := 0
  parens : Int := 0
  squares : Int := 0
deriving Repr, DecidableEq, Inhabited

def Balance.add (b : Balance) (line : String) : Balance :=
  let cs := line.toList
  { braces := b.braces + cs.count '\x7b' - cs.count '\x7d'
    parens := b.parens + cs.count '(' - cs.count ')'
    squares := b.squares + cs.count '[' - cs.count ']' }

def Balance.isLevel (b : Balance) : Bool := b.braces == 0 && b.parens == 0 && b.squares == 0

/-- How many lines after the first a declaration ends, given the balance before these lines. -/
def declarationSpanFrom : Balance → List String → Nat
  | _, [] => 0
  | _, [_] => 0
  | balance, line :: rest =>
    let balance := balance.add line
    if balance.isLevel && line.toList.contains ';' then 0
    else declarationSpanFrom balance rest + 1

def declarationSpan (lines : List String) : Nat := declarationSpanFrom {} lines

/-- The mock declarations in lines, the first of which has number `at_`. -/
def mocksFrom (at_ : Nat) : List String → List Mock
  | [] => []
  | line :: rest =>
    match mockName? line with
    | none => mocksFrom (at_ + 1) rest
    | some name =>
      let length := declarationSpan (line :: rest)
      { name, content := unlines ((line :: rest).take (length + 1)), start := at_,
        stop := at_ + length } ::
        mocksFrom (at_ + length + 1) (rest.drop length)
termination_by lines => lines.length

def mocks (lines : List String) : List Mock := mocksFrom 0 lines

namespace Mock

def kind (m : Mock) : MockKind :=
  let has (c : Char) : Bool := m.content.toList.contains c
  let small := lowered m.content
  if hasText small "jest.fn" then .function
  else if has '\x7b' && has '\x7d' then
    if hasText small "repository" then .repository else .object
  else if has '[' && has ']' then .array
  else .primitive

/-- The number of colons that follow a word directly. -/
def keyCount : List Char → Nat
  | [] => 0
  | [_] => 0
  | a :: b :: cs => (if isWord a && b == ':' then 1 else 0) + keyCount (b :: cs)

/-- How involved a mock is: its braces, square brackets, keys and arrows. -/
def complexity (m : Mock) : Nat :=
  let cs := m.content.toList
  cs.count '\x7b' + cs.count '[' + keyCount cs + countOf ['=', '>'] cs

end Mock
end SuiteTidy.Suite
