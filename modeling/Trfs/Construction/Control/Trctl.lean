/-
This file models the user program of `trctl.c`.
-/

import Trfs.Construction.Kernel.File
import Trfs.Construction.Trace.Format
import Trfs.Library.CString

namespace Trfs.Control
open Bytes Effect Trace Kernel

/-- The system calls of `trctl`. `ioctlRet` is the request `RET` with the address of `retmapval`. -/
inductive ControlCall where
  | printf (text : String)
  | open (path : List Byte) (flags : BitVec 32)
  | ioctl (fd cmd : BitVec 32) (arg : BitVec 64)
  | ioctlRet (fd : BitVec 32)
  | close (fd : BitVec 32)

/-- The reply to `RET` is its result and the value of `retmapval` afterwards. -/
@[reducible] def ControlCall.Reply : ControlCall → Type
  | .open .. | .ioctl .. => BitVec 32
  | .ioctlRet _ => BitVec 32 × BitVec 64
  | .printf _ | .close _ => Unit

abbrev Ctl := Program ControlCall.Reply

/-- `BITMAP_MAX` of `treplay.h`. -/
def bitmapMax : BitVec 64 := 0xfff

/-- The output of `%lx`. -/
def hexText (value : BitVec 64) : String := String.ofList (Nat.toDigits 16 value.toNat)

def isSpace (byte : Byte) : Bool := byte = 0x20 || (0x09 ≤ byte && byte ≤ 0x0d)

def hexDigit (byte : Byte) : Option Nat :=
  if 0x30 ≤ byte ∧ byte ≤ 0x39 then some (byte.toNat - 0x30)
  else if 0x41 ≤ byte ∧ byte ≤ 0x46 then some (byte.toNat - 0x41 + 10)
  else if 0x61 ≤ byte ∧ byte ≤ 0x66 then some (byte.toNat - 0x61 + 10)
  else none

/-- The sign and what follows it. -/
def takeSign (text : List Byte) : Bool × List Byte :=
  match text with
  | 0x2d#8 :: rest => (true, rest)
  | 0x2b#8 :: rest => (false, rest)
  | _ => (false, text)

/-- The prefix `0x` counts only before a digit. -/
def dropPrefix (text : List Byte) : List Byte :=
  match text with
  | zero :: x :: digit :: rest =>
      if zero = 0x30 ∧ (x = 0x78 ∨ x = 0x58) ∧ (hexDigit digit).isSome then digit :: rest else text
  | _ => text

/-- The number of the leading digits. -/
def hexValue : Nat → List Byte → Nat
  | value, [] => value
  | value, byte :: rest =>
      match hexDigit byte with
      | none => value
      | some digit => hexValue (16 * value + digit) rest

/-- `strtol(text, NULL, 16)` saturates at `LONG_MIN` and `LONG_MAX`. -/
def strtol16 (text : List Byte) : BitVec 64 :=
  let (negative, digits) := takeSign (text.dropWhile isSpace)
  let value := hexValue 0 (dropPrefix digits)
  if negative then BitVec.ofInt 64 (-(min value (2 ^ 63) : Nat))
  else BitVec.ofNat 64 (min value (2 ^ 63 - 1))

/-- The variables of `main` that the token loop changes. -/
structure Locals where
  retmapval : BitVec 64
  rc : BitVec 32
deriving DecidableEq, Repr

/-- One of the twelve blocks of the token loop. It pushes the word only when it changes it. -/
def bitBlock (fd : BitVec 32) (name : List Byte) (call : CallKind) (token : CString) (locals : Locals) :
    Ctl Locals :=
  let bit := call.recordType.toNat
  let weight : BitVec 64 := ((1 : BitVec 32) <<< bit).signExtend 64
  if token.bytes = ascii "+" ++ name then
    if (locals.retmapval >>> bit) &&& 1 = 0 then do
      let retmapval := locals.retmapval + weight
      let rc ← perform (ControlCall.ioctl fd HEX retmapval)
      pure ⟨retmapval, rc⟩
    else pure locals
  else if token.bytes = ascii "-" ++ name then
    if (locals.retmapval >>> bit) &&& 1 = 1 then do
      let retmapval := locals.retmapval - weight
      let rc ← perform (ControlCall.ioctl fd HEX retmapval)
      pure ⟨retmapval, rc⟩
    else pure locals
  else pure locals

/-- The names and bits of the twelve blocks in their order. -/
def callNames : List (List Byte × CallKind) :=
  [(ascii "open", .open), (ascii "read", .read), (ascii "write", .write), (ascii "close", .release),
    (ascii "create", .create), (ascii "link", .link), (ascii "unlink", .unlink), (ascii "symlink", .symlink),
    (ascii "mkdir", .mkdir), (ascii "rmdir", .rmdir), (ascii "mknod", .mknod), (ascii "rename", .rename)]

/-- The body of the token loop runs all twelve blocks on one argument. -/
def tokenBody (fd : BitVec 32) (token : CString) (locals : Locals) : Ctl Locals :=
  callNames.foldlM (fun reached entry => bitBlock fd entry.1 entry.2 token reached) locals

def tokenLoop (fd : BitVec 32) : List CString → Locals → Ctl Locals
  | [], locals => pure locals
  | token :: rest, locals => do
      let locals ← tokenBody fd token locals
      tokenLoop fd rest locals

/-- The branch of `extra_cr` goes over the arguments between the program's name and the path. -/
def extraCredit (fd : BitVec 32) (argv : List CString) : Ctl (BitVec 32) := do
  let (rc, retmapval) ← perform (ControlCall.ioctlRet fd)
  let locals ← tokenLoop fd argv.tail.dropLast ⟨retmapval, rc⟩
  pure locals.rc

/-- The branch of a hex word. -/
def hexCommand (fd : BitVec 32) (command : CString) : Ctl (BitVec 32) :=
  if command.bytes.getD 0 0 ≠ 0x30 ∨ ¬ (command.bytes.getD 1 0 = 0x78 ∨ command.bytes.getD 1 0 = 0x58) then do
    perform (ControlCall.printf "Please enter a hex value in 0xNN format\n")
    pure 0
  else
    let bitmapval := strtol16 (command.bytes.drop 2)
    if bitmapval > bitmapMax then do
      perform (ControlCall.printf ("Please enter a lesser value than 0x" ++ hexText bitmapMax ++ ".\n"))
      pure 0
    else perform (ControlCall.ioctl fd HEX bitmapval)

/-- The branch of three arguments. -/
def oneCommand (fd : BitVec 32) (argv : List CString) (command : CString) : Ctl (BitVec 32) :=
  if command.bytes = ascii "all" then perform (ControlCall.ioctl fd ALL bitmapMax)
  else if command.bytes = ascii "none" then perform (ControlCall.ioctl fd NONE 0)
  else if command.bytes.getD 0 0 = 0x2b ∨ command.bytes.getD 0 0 = 0x2d then extraCredit fd argv
  else hexCommand fd command

/-- The branch of two arguments shows the mask. -/
def showMask (fd : BitVec 32) : Ctl (BitVec 32) := do
  let (rc, retmapval) ← perform (ControlCall.ioctlRet fd)
  perform (ControlCall.printf ("Current bitmap value is : 0x" ++ hexText retmapval ++ "\n"))
  pure rc

/-- `main` of `trctl.c`. The path in the last argument is not used. -/
def trctl (argv : List CString) : Ctl (BitVec 32) :=
  match argv with
  | [] | [_] => do
      perform (ControlCall.printf "Too few arguments. Terminating call.\n")
      perform (ControlCall.close (-1))
      pure 0
  | [_, _] => do
      let fd ← perform (ControlCall.open (ascii "/mnt/trfs") 0)
      let rc ← showMask fd
      perform (ControlCall.close fd)
      pure rc
  | [_, command, _] => do
      let fd ← perform (ControlCall.open (ascii "/mnt/trfs") 0)
      let rc ← oneCommand fd argv command
      perform (ControlCall.close fd)
      pure rc
  | _ => do
      let fd ← perform (ControlCall.open (ascii "/mnt/trfs") 0)
      let rc ← extraCredit fd argv
      perform (ControlCall.close fd)
      pure rc

end Trfs.Control
