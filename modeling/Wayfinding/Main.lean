import Wayfinding.Tour

/-!
The command line: a tour of the map in the file that is named. A name that ends in `.json` is that
of a snapshot, any other that of a drawing.
-/

open Wayfinding

/-- Reports a fault and gives the exit code for it. -/
def fail (message : String) : IO UInt32 := do
  IO.eprint (Tour.report message)
  return 1

def main (args : List String) : IO UInt32 := do
  match args with
  | [] => fail "no map file is named"
  | path :: _ =>
      try
        let content ← IO.FS.readFile path
        let result := Tour.run (path.endsWith ".json") content
        IO.print result.output
        IO.eprint result.errors
        return UInt32.ofNat result.code
      catch e => fail (toString e)
