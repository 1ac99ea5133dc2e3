import Nes.Cartridge.Image
import Nes.Demonstration
import Nes.Machine.Run

/-! The command line: runs an image from its reset vector, with a line for every
instruction, until a `BRK` stops it, and then shows where it stopped. The result is
a report of the lines printed and of what went wrong, if anything. -/
namespace Nes.CommandLine

open Text

/-- What went wrong: the outermost account, and the cause that it wraps. -/
structure Failure where
  summary : String
  cause : Option String := none
  deriving DecidableEq

def Failure.text (f : Failure) : String :=
  "Error: " ++ f.summary ++ "\n" ++
    match f.cause with
    | some cause => "\nCaused by:\n    " ++ cause ++ "\n"
    | none => ""

structure Report where
  lines : Array String := #[]
  failure : Option Failure := none

def Report.exitCode (r : Report) : UInt32 := if r.failure.isSome then 1 else 0

/-- How many instructions a program may take to stop. -/
abbrev instructionLimit : Nat := 100000

/-- The three lines about a machine that has stopped, after a blank one. -/
def summarize (lines : Array String) (executed : Nat) (m : Machine) : Report :=
  let c := m.cpu
  let lines := lines ++ #["",
    "halted after " ++ toString executed ++ " instructions at $" ++ hexAddress c.pc,
    "A=$" ++ hexByte c.a ++ " X=$" ++ hexByte c.x ++ " Y=$" ++ hexByte c.y ++
      " SP=$" ++ hexByte c.sp ++ " P=" ++ binaryByte c.status.toByte]
  match (Machine.read 0x0200).run m with
  | .ok v _ => { lines := lines.push ("mem[$0200] = $" ++ hexByte v) }
  | .error e _ => { lines, failure := some { summary := e.message } }

/-- Traces and executes for at most `budget` more instructions. -/
def follow (lines : Array String) (executed : Nat) (m : Machine) : (budget : Nat) → Report
  | 0 =>
    let summary := "no BRK after " ++ toString instructionLimit ++ " instructions"
    { lines, failure := some { summary } }
  | budget + 1 =>
    match Disassembly.line m.cpu m.bus with
    | .error e => { lines, failure := some { summary := e.message } }
    | .ok line =>
      match Machine.step.run m with
      | .error e _ =>
        let summary := "cpu fault after " ++ toString executed ++ " instructions"
        { lines := lines.push line, failure := some { summary, cause := some e.message } }
      | .ok .halted m => summarize (lines.push line) (executed + 1) m
      | .ok .running m => follow (lines.push line) (executed + 1) m budget

/-- Runs a cartridge from its reset vector. -/
def play (c : Cartridge) : Report :=
  match Machine.reset.run ((Machine.powerOn none).attach c) with
  | .error e _ => { failure := some { summary := "reset failed", cause := some e.message } }
  | .ok _ m => follow #[] 0 m instructionLimit

/-- Runs an image. -/
def report (image : Array Byte) : Report :=
  match Cartridge.ofImage image with
  | .error e => { failure := some { summary := "failed to parse iNES", cause := some e.message } }
  | .ok c => play c

/-- The report on a file that cannot be read. -/
def unreadable (path cause : String) : Report where
  failure := some { summary := "reading " ++ path, cause := some cause }

/-- The cause of a missing file. -/
def noSuchFile : String := "No such file or directory (os error 2)"

end Nes.CommandLine
