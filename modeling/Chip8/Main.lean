import Chip8.CommandLine.Lister
import Chip8.CommandLine.Runner

/-!
The two programs. The first argument selects one of them by its name, and the
others are its command line.
-/

namespace Chip8.Main

open CommandLine

/-- The fault with a system's number, which some of its calls give negated. -/
def ofSystem (code : UInt32) (text : String) : FileFault :=
  .ofCode (if code < 0x80000000 then code else 0 - code).toNat text

def fileFault : IO.Error → FileFault
  | .noFileOrDirectory _ code text => ofSystem code text
  | .permissionDenied _ code text => ofSystem code text
  | .inappropriateType _ code text => ofSystem code text
  | .invalidArgument _ code text => ofSystem code text
  | .resourceExhausted _ code text => ofSystem code text
  | .noSuchThing _ code text => ofSystem code text
  | .hardwareFault code text => ofSystem code text
  | .otherError code text => ofSystem code text
  | fault => .other 0 fault.toString

def contentsOf (path : String) : IO (Except FileFault (List UInt8)) := do
  try
    let contents ← IO.FS.readBinFile path
    return .ok contents.toList
  catch fault => return .error (fileFault fault)

/-- Bytes that differ from one start of the program to the next. -/
def seededDice : IO Dice := do
  let seed ← IO.rand 0 0xffffffff
  let mixed (count : Nat) : UInt8 :=
    let start : UInt64 := UInt64.ofNat (seed + 0x9e3779b97f4a7c15 * (count + 1))
    let once := (start ^^^ (start >>> 30)) * 0xbf58476d1ce4e5b9
    let twice := (once ^^^ (once >>> 27)) * 0x94d049bb133111eb
    (twice ^^^ (twice >>> 31)).toUInt8
  return { source := mixed, taken := 0 }

def report (exit : Exit) : IO UInt32 := do
  IO.print exit.output
  IO.eprint exit.errors
  return UInt32.ofNat exit.code

def perform {σ : Type} (plan : Plan σ) (use : σ → List UInt8 → Exit) : IO UInt32 := do
  match plan with
  | .now exit => report exit
  | .withFile path options =>
      let contents ← contentsOf path
      report ((Plan.withFile path options).run use fun _ => contents)

end Chip8.Main

open Chip8.CommandLine in
def main : List String → IO UInt32
  | "ch8-disasm" :: arguments =>
      Chip8.Main.perform (Lister.plan .standard arguments) (Lister.list .terminal)
  | "ch8-run" :: arguments => do
      let dice ← Chip8.Main.seededDice
      Chip8.Main.perform (Runner.plan .standard arguments) (Runner.playFile .terminal dice)
  | _ => do
      IO.eprintln "usage: ch8-disasm | ch8-run"
      return 2
