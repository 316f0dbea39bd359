import VhdlLowering.Source.Span

/-!
# Diagnostics

A diagnostic tells the user about one place of the source. It has a message and a code, may carry a
help, and labels the regions that it is about. A region is given by its offset and its length, so a
reversed span gives a region of length zero.
-/

namespace VhdlLowering

/-- Offset and length of a piece of source text. -/
structure Region where
  offset : Nat
  length : Nat
deriving DecidableEq, Repr

def Span.region (s : Span) : Region := ⟨s.start.toNat, s.len⟩

structure Diagnostic where
  message : String
  code : String
  /-- A warning does not stop the program. -/
  isWarning : Bool
  help : Option String
  labels : List (String × Region)
deriving DecidableEq, Repr

/-- A text between backticks. -/
def ticked (s : String) : String := "`" ++ s ++ "`"

namespace Diagnostic

/-- Cuts the spaces off the end of a line. -/
def cutSpaces (cs : List Char) : List Char := (cs.reverse.dropWhile (· == ' ')).reverse

/-- The pieces of a text between its line feeds. -/
def linesOf : List Char → List (List Char)
  | [] => [[]]
  | c :: cs =>
    if c = '\n' then [] :: linesOf cs
    else match linesOf cs with
      | [] => [[c]]
      | l :: ls => (c :: l) :: ls

/-- A line behind its mark. -/
def markLine (mark : String) (l : List Char) : String :=
  mark ++ String.ofList (cutSpaces l) ++ "\n"

/-- The first line of a text stands behind the first mark and every other line behind the second. -/
def markLines (first later : String) (s : String) : String :=
  match linesOf s.toList with
  | [] => ""
  | l :: ls => markLine first l ++ String.join (ls.map (markLine later))

/-- The report shown on a screen: the code, the message behind a sign, and the help. Lines are as
long as they come. -/
def render (d : Diagnostic) : String :=
  d.code ++ "\n\n" ++
  markLines (if d.isWarning then "  ⚠ " else "  × ") "  │ " d.message ++
  d.help.elim "" fun h => markLines "  help: " "        " h

end Diagnostic

end VhdlLowering
