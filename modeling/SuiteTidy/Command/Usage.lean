import SuiteTidy.Text.Quoted

/-!
What is wrong with the words on a command line.
-/

set_option autoImplicit false
set_option relaxedAutoImplicit false

namespace SuiteTidy

inductive UsageFault where
  /-- An option that there is not, and known ones close to it. -/
  | unknownOption (name : String) (close : List String)
  | missingValue (option : String)
  | needlessValue (option : String)
  /-- A value that is no integer, and the names of its option. -/
  | notInteger (names : List String) (value : String)
  | extraWords (words : List String)
  | unknownCommand (name : String)
  | missingCommand
deriving Repr, DecidableEq, Inhabited

namespace UsageFault

def hint (close : List String) : String :=
  let names := close.mergeSort fun a b => a ≤ b
  match names with
  | [] => ""
  | [name] => " Did you mean " ++ name ++ "?"
  | names => " (Possible options: " ++ ", ".intercalate names ++ ")"

def message : UsageFault → String
  | unknownOption name close => "No such option: " ++ name ++ hint close
  | missingValue option => "Option " ++ quoted option ++ " requires an argument."
  | needlessValue option => "Option " ++ quoted option ++ " does not take a value."
  | notInteger names value =>
    "Invalid value for " ++ " / ".intercalate (names.map fun n => "'" ++ n ++ "'") ++ ": " ++
      quoted value ++ " is not a valid integer."
  | extraWords words =>
    "Got unexpected extra argument" ++ (if words.length = 1 then "" else "s") ++ " (" ++
      " ".intercalate words ++ ")"
  | unknownCommand name => "No such command " ++ quoted name ++ "."
  | missingCommand => "Missing command."

end UsageFault
end SuiteTidy
