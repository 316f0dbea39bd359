import VhdlLowering.Source.Span
import VhdlLowering.Text.Blank

/-!
# Declared objects

An object is a constant, signal or variable of a package, a generic or port of a component, or a
parameter of a subprogram. Types and values are kept as they are written. Names are of any type:
symbols after lowering, texts once they are resolved.
-/

namespace VhdlLowering

/-- Modes of ports and parameters. -/
inductive Direction where
  | input
  | output
  | inout
  | buffer
  | linkage
deriving DecidableEq, Repr

namespace Direction

def keyword : Direction → String
  | input => "in"
  | output => "out"
  | inout => "inout"
  | buffer => "buffer"
  | linkage => "linkage"

def all : List Direction := [input, output, inout, buffer, linkage]

/-- Reads a keyword; white space around it and the case of ASCII letters do not matter. -/
def ofKeyword? (s : String) : Option Direction :=
  let word := (Text.trim s).map Char.toLower
  all.find? fun d => d.keyword == word

end Direction

/-- Source text of an expression or a type, with its position. -/
structure Expr where
  text : String
  span : FileSpan
deriving DecidableEq, Repr

inductive ObjectKind where
  | constant
  | signal
  | variable
  | generic
  | port
  | parameter
deriving DecidableEq, Repr

def ObjectKind.keyword : ObjectKind → String
  | .constant => "constant"
  | .signal => "signal"
  | .variable => "variable"
  | .generic => "generic"
  | .port => "port"
  | .parameter => "parameter"

/-- One declared object. A declaration of several names gives one object for each. -/
structure Object (ν : Type) where
  name : ν
  kind : ObjectKind
  direction : Option Direction
  type : Option Expr
  value : Option Expr
  span : FileSpan
deriving DecidableEq, Repr

/-- Changes the name of an object. -/
def Object.map {ν μ : Type} (f : ν → μ) (o : Object ν) : Object μ := { o with name := f o.name }

end VhdlLowering
