import VhdlLowering.Diagnostic.Basic
import VhdlLowering.Syntax.Node

/-!
# Defects and skipped constructs

A defect of a syntax tree stops the lowering of the scope it is found in. A construct that lowering
does not support is no defect: it is skipped, and what was skipped is kept in a log.
-/

namespace VhdlLowering

/-- A defect, with the region of the node that shows it. -/
inductive Defect where
  /-- A node lacks a child. -/
  | missing (parent : Kind) (expected : Rule) (region : Region)
  /-- A node stands where another kind is expected. -/
  | unexpected (expected : Rule) (found : Kind) (region : Region)
  /-- A declaration has no names. -/
  | nameless (construct : Kind) (region : Region)
  /-- A mode is no keyword. -/
  | invalidMode (text : String) (region : Region)
deriving DecidableEq, Repr

namespace Defect

/-- The defect of a node that has no child of a kind. -/
def missingIn (parent : Node) (expected : Rule) : Defect :=
  .missing parent.kind expected parent.span.region

/-- The defect of a node that should be of another kind. -/
def unexpectedNode (found : Node) (expected : Rule) : Defect :=
  .unexpected expected found.kind found.span.region

def region : Defect → Region
  | missing _ _ r | unexpected _ _ r | nameless _ r | invalidMode _ r => r

def message : Defect → String
  | missing parent expected _ => ticked parent.name ++ " has no " ++ ticked expected.name
  | unexpected expected found _ =>
    "expected " ++ ticked expected.name ++ ", found " ++ ticked found.name
  | nameless construct _ => ticked construct.name ++ " declares no names"
  | invalidMode text _ => "invalid mode " ++ ticked text

def code : Defect → String
  | missing .. => "lower::missing_node"
  | unexpected .. => "lower::unexpected_node"
  | nameless .. => "lower::empty_identifier_list"
  | invalidMode .. => "lower::invalid_mode"

def help : Defect → Option String
  | missing _ expected _ =>
    some ("the syntax tree is malformed; the front end must emit a " ++ ticked expected.name ++
      " here")
  | nameless .. => some "declarations must name at least one object"
  | unexpected .. | invalidMode .. => none

/-- What is written at the region. -/
def label : Defect → String
  | missing _ expected _ => ticked expected.name ++ " expected inside"
  | unexpected _ found _ => "this is a " ++ ticked found.name
  | nameless .. => "no identifiers here"
  | invalidMode .. => "not a port or parameter mode"

def diagnostic (d : Defect) : Diagnostic :=
  ⟨d.message, d.code, false, d.help, [(d.label, d.region)]⟩

end Defect

/-- A construct that was skipped. The label names the rule that skips it. -/
structure Skipped where
  label : String
  kind : Kind
  span : Span
deriving DecidableEq, Repr

namespace Skipped

def ofNode (label : String) (n : Node) : Skipped := ⟨label, n.kind, n.span⟩

def diagnostic (s : Skipped) : Diagnostic :=
  ⟨ticked s.kind.name ++ " is not supported and was skipped", "lower::unsupported", true,
    some ("reported by " ++ s.label), [("skipped", s.span.region)]⟩

end Skipped

/-- Skipped constructs, oldest first. -/
abbrev Log := List Skipped

namespace Log

def countKind (log : Log) (k : Kind) : Nat := log.countP fun s => s.kind = k

/-- Counts one more occurrence of a label. -/
def tally (label : String) : List (String × Nat) → List (String × Nat)
  | [] => [(label, 1)]
  | (l, n) :: rest => if l = label then (l, n + 1) :: rest else (l, n) :: tally label rest

/-- The number of entries of each label, in the order in which the labels occur first. -/
def summary (log : Log) : List (String × Nat) :=
  log.foldl (fun counts s => tally s.label counts) []

end Log

end VhdlLowering
