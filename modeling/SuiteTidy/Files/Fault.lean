import SuiteTidy.Files.Encoding
import SuiteTidy.Files.Path
import SuiteTidy.Text.Quoted

/-!
What goes wrong with files, and the words for it.
-/

set_option autoImplicit false
set_option relaxedAutoImplicit false

namespace SuiteTidy

/-- Why a file operation has no result. -/
inductive FileFault where
  | missing (p : Path)
  | present (p : Path)
  | notDirectory (p : Path)
  | isDirectory (p : Path)
  | nameTooLong (p : Path)
  | notEmpty (p : Path)
  | invalid (p : Path)
  | nullCharacter
  | notText (place : Encoding.Break)
deriving Repr, DecidableEq

namespace FileFault

def systemWords (code : Nat) (words : String) (p : Path) : String :=
  "[Errno " ++ toString code ++ "] " ++ words ++ ": " ++ quoted p.text

def breakWords (b : Encoding.Break) : String :=
  let start := "'utf-8' codec can't decode "
  let reason := ": " ++ b.reason.words
  if b.length = 1 then
    start ++ "byte 0x" ++ String.ofList (Text.hexDigits b.byte.toNat 2) ++ " in position " ++
      toString b.position ++ reason
  else
    start ++ "bytes in position " ++ toString b.position ++ "-" ++
      toString (b.position + b.length - 1) ++ reason

def message : FileFault → String
  | missing p => systemWords 2 "No such file or directory" p
  | present p => systemWords 17 "File exists" p
  | notDirectory p => systemWords 20 "Not a directory" p
  | isDirectory p => systemWords 21 "Is a directory" p
  | nameTooLong p => systemWords 36 "File name too long" p
  | notEmpty p => systemWords 39 "Directory not empty" p
  | invalid p => systemWords 22 "Invalid argument" p
  | nullCharacter => "embedded null byte"
  | notText b => breakWords b

end FileFault
end SuiteTidy
