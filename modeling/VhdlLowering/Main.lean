import VhdlLowering.CommandLine

/-!
# The program

Looks at the files that the command line names, runs the program on them and prints what it leaves.
-/

namespace VhdlLowering
namespace Program

/-- What a path of the file system leads to. -/
def probe (path : String) : IO (Option Entry) := do
  match ← (IO.FS.readBinFile path).toBaseIO with
  | .ok bytes =>
    match String.fromUTF8? bytes with
    | some content => return some (.text content)
    | none => return some .binary
  | .error (.noFileOrDirectory ..) => return none
  | .error (.inappropriateType ..) => return some .directory
  | .error _ => return some .binary

/-- The given paths, with what they lead to now. -/
def look (paths : List String) : IO Directory := do
  let found ← paths.mapM fun path => return (path, ← probe path)
  return ⟨fun path => (found.lookup path).join⟩

end Program
end VhdlLowering

/-- Runs the program with the arguments of the command line. -/
def main (args : List String) : IO UInt32 := do
  let directory ← VhdlLowering.Program.look (VhdlLowering.CommandLine.pathsOf args)
  let exit := VhdlLowering.CommandLine.execute VhdlLowering.Diagnostic.render directory args
  IO.print exit.output
  IO.eprint exit.errors
  return exit.code.toUInt32
