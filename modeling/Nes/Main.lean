import Nes.CommandLine

/-! The program: reads the image named by the first argument, or takes the built-in
one, and prints the report. -/
namespace Nes.CommandLine

/-- The account of a failed read. -/
def causeOf : IO.Error → String
  | .noFileOrDirectory .. => noSuchFile
  | e => toString e

/-- The report on the image at a path, or on the built-in one. -/
def reportOn : Option String → IO Report
  | none => return report Demonstration.image
  | some path => do
    try
      return report (← IO.FS.readBinFile path).data
    catch e => return unreadable path (causeOf e)

end Nes.CommandLine

def main (arguments : List String) : IO UInt32 := do
  let r ← Nes.CommandLine.reportOn arguments.head?
  for line in r.lines do
    IO.println line
  if let some f := r.failure then
    IO.eprint f.text
  return r.exitCode
