import VhdlLowering.Ast.Outline
import VhdlLowering.Session
import VhdlLowering.Settings
import VhdlLowering.Syntax.Document

/-!
# Conversion

A conversion reads the syntax tree of a design file, lowers it and reports the outlines of its
packages and what was skipped. The report is written piece by piece, once the tree is lowered; with
the setting for it, skipped constructs make the conversion fail after the report. How a diagnostic
is rendered is left open.
-/

namespace VhdlLowering
namespace Conversion

/-- Why a conversion failed. -/
inductive Failure where
  | unreadable (path : String)
  | malformed (path : String) (report : Json.Report)
  | defective (path : String) (defect : Defect)
  | denied (path : String) (count : Nat)
deriving DecidableEq, Repr

namespace Failure

def message (render : Diagnostic → String) : Failure → String
  | unreadable path => "Failed to read syntax tree: " ++ path
  | malformed path _ => "Failed to load syntax tree: " ++ path
  | defective path defect => "Failed to lower " ++ path ++ "\n" ++ render defect.diagnostic
  | denied path count => toString count ++ " unsupported construct(s) skipped in " ++ path

/-- What lies behind a failure, one thing behind the other, unless the message says it all. -/
def causes : Failure → List String
  | unreadable _ => ["there is no text at this path"]
  | malformed _ report => ["malformed syntax tree: " ++ report.message, report.message]
  | defective .. | denied .. => []

end Failure

/-- Writes to the output and may fail. What was written before a failure stays. -/
abbrev WriterM := EStateM Failure String

def write (s : String) : WriterM Unit := modify (· ++ s)

/-- A number at the right of four columns. -/
def column (n : Nat) : String :=
  let digits := Nat.toDigits 10 n
  String.ofList (List.replicate (4 - digits.length) ' ' ++ digits)

/-- The heading and the outlines. -/
def writeOutlines (path : String) (packages : List (Package String)) : WriterM Unit := do
  write ("Lowered " ++ toString packages.length ++ " package(s) from " ++ path ++ "\n")
  packages.forM fun p => do
    write "\n"
    write (Package.outline p)

/-- The line for a log without entries. -/
def success : String := "\nSuccess: No unsupported constructs\n"

/-- The number of skipped constructs, in all and by label. -/
def writeSummary (log : Log) : WriterM Unit := do
  write ("\nUnsupported " ++ toString log.length ++ " construct(s) skipped:\n")
  (Log.summary log).forM fun (label, count) =>
    write ("  " ++ column count ++ "  " ++ label ++ "\n")

/-- Every skipped construct on its own. -/
def writeDetails (render : Diagnostic → String) (log : Log) : WriterM Unit :=
  log.forM fun s => do
    write "\n"
    write (render s.diagnostic)

/-- The report on lowered packages. -/
def writeReport (render : Diagnostic → String) (settings : Settings) (path : String)
    (packages : List (Package String)) (log : Log) : WriterM Unit := do
  writeOutlines path packages
  if log.isEmpty then
    write success
  else
    writeSummary log
    if settings.verbose then
      writeDetails render log
    if settings.denyUnsupported then
      throw (.denied path log.length)

/-- The packages of a tree, over their names, and what is skipped. -/
def lowerTree (settings : Settings) (path : String) (root : Node) :
    WriterM (List (Package String) × Log) :=
  let lowering : SessionM (List (Package Symbol)) :=
    DesignFile.lower ⟨⟨0⟩, settings.hierarchyOnly⟩ root
  match lowering.run .start with
  | .error defect _ => throw (.defective path defect)
  | .ok packages ⟨names, log⟩ => return (packages.map (Package.map names.nameOf), log)

/-- What was written, and the failure if there was one. -/
structure Outcome where
  output : String
  failure : Option Failure
deriving DecidableEq, Repr

def Outcome.of (x : WriterM Unit) : Outcome :=
  match x.run "" with
  | .ok _ output => ⟨output, none⟩
  | .error failure output => ⟨output, some failure⟩

/-- Converts the file at a path. -/
def run (render : Diagnostic → String) (d : Directory) (settings : Settings) (path : String) :
    Outcome := .of do
  let root ←
    match d.read? path with
    | none => throw (.unreadable path)
    | some document =>
      match Node.ofJson document with
      | .error report => throw (.malformed path report)
      | .ok root => pure root
  let (packages, log) ← lowerTree settings path root
  writeReport render settings path packages log

end Conversion
end VhdlLowering
