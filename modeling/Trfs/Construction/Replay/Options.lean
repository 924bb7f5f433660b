/-
This file models how `main` in `treplay.c` reads its options and chooses what the record loop does.
-/

import Trfs.Construction.Replay.RecordLoop
import Trfs.Library.CString

namespace Trfs.Replay
open Bytes

/-- The answers of `getopt` with the option string `ns`. It answers `?` to any other letter. -/
inductive OptionLetter where
  | n | s | unknown
deriving DecidableEq, Repr

def optionLetter (byte : Byte) : OptionLetter := if byte = 0x6e then .n else if byte = 0x73 then .s else .unknown

/-- The options in the order in which `getopt` finds them, and the arguments in the order in which it leaves them. -/
structure Getopt where
  letters : List OptionLetter
  optionArgs : List CString
  operands : List CString
deriving DecidableEq

/-- A dash with letters behind it. A dash alone is an operand. -/
def isCluster (arg : CString) : Bool := arg.bytes.head? = some 0x2d ∧ arg.bytes.tail ≠ []

/-- `getopt` moves the operands behind the options, unless `POSIXLY_CORRECT` makes it stop at the first one. -/
def getopt (posixlyCorrect : Bool) : List CString → Getopt
  | [] => ⟨[], [], []⟩
  | arg :: rest =>
      if arg.bytes = ascii "--" then ⟨[], [arg], rest⟩
      else if isCluster arg then
        let found := getopt posixlyCorrect rest
        ⟨arg.bytes.tail.map optionLetter ++ found.letters, arg :: found.optionArgs, found.operands⟩
      else if posixlyCorrect then ⟨[], [], arg :: rest⟩
      else
        let found := getopt posixlyCorrect rest
        { found with operands := arg :: found.operands }

/-- The locals of `main` that its options change. The first two are not initialized. -/
structure OptionLocals where
  nVal : Bool
  sVal : Bool
  errVal : Bool
  paramLen : Nat
deriving DecidableEq, Repr

/-- The `switch` over the answers of `getopt`. -/
def OptionLocals.handle (locals : OptionLocals) : OptionLetter → OptionLocals
  | .n => { locals with paramLen := locals.paramLen + 1, nVal := true }
  | .s => { locals with paramLen := locals.paramLen + 1, sVal := true }
  | .unknown => { locals with errVal := true }

/-- The flags `replay` and `abort` are false at first. -/
def chooseMode (argc : Nat) (locals : OptionLocals) : Mode :=
  let mode : Mode := ⟨false, false⟩
  if argc = 3 then
    if ¬ locals.nVal ∧ locals.sVal then { mode with replay := true, abort := true }
    else if locals.nVal ∧ ¬ locals.sVal then { mode with replay := false }
    else mode
  else { mode with replay := true, abort := false }

/-- The output of `main` before it opens the trace, and its flags with the path of the trace if it goes on. -/
structure Startup where
  output : List String
  goes : Option (Mode × Option CString)
deriving DecidableEq

def startup (posixlyCorrect : Bool) (argv : List CString) (nVal sVal : Bool) : Startup :=
  let argc := argv.length
  if argc < 2 then ⟨["Input parameters missing."], none⟩
  else
    let output := if argc > 3 then ["Too many input parameters."] else []
    let found := getopt posixlyCorrect argv.tail
    let locals := found.letters.foldl OptionLocals.handle ⟨nVal, sVal, false, 0⟩
    if locals.errVal then
      ⟨output ++ ["Input options are incorrect. Terminating treplay call.\n"], none⟩
    else if locals.paramLen > 1 then
      ⟨output ++ ["Cannot take more than 1 parameters. Terminating treplay call.\n"], none⟩
    else if argc = 2 ∧ locals.paramLen > 0 then
      ⟨output ++ ["Wrong input parameters. Terminating treplay call.\n"], none⟩
    else ⟨output, some (chooseMode argc locals, (found.optionArgs ++ found.operands).getLast?)⟩

end Trfs.Replay
