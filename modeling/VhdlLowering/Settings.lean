import VhdlLowering.Directory
import VhdlLowering.Toml.Document

/-!
# Settings

Three settings steer a conversion. They are read from a TOML file with two sections; a setting that
is not given is off. The sections may be missing, other sections are refused and other keys inside
a section have no meaning.
-/

namespace VhdlLowering

structure Settings where
  /-- Lower names only. -/
  hierarchyOnly : Bool
  /-- Fail if a construct was skipped. -/
  denyUnsupported : Bool
  /-- Show every skipped construct. -/
  verbose : Bool
deriving DecidableEq, Repr

namespace Settings

/-- Everything off. -/
def default : Settings := ⟨false, false, false⟩

/-- On where one of the two is on. -/
def or (s t : Settings) : Settings :=
  ⟨s.hierarchyOnly || t.hierarchyOnly, s.denyUnsupported || t.denyUnsupported,
    s.verbose || t.verbose⟩

@[simp] theorem or_default (s : Settings) : s.or default = s := by
  simp [or, default]

@[simp] theorem default_or (s : Settings) : default.or s = s := by
  simp [or, default]

/-- A setting; a missing one is off. -/
def flag? : Option Toml.Item → Option Bool
  | none => some false
  | some (.boolean b) => some b
  | some _ => none

/-- The value of the key at a position of a section. A section is a table, or a list of its values in
order; a date or time counts as a table without keys. -/
def sectionItem? (s : Toml.Item) (key : String) (position : Nat) : Option (Option Toml.Item) :=
  match s with
  | .table _ es | .record es => some (Toml.Entries.find? key es)
  | .list items => some items[position]?
  | .tables elements => some (elements[position]?.map Toml.Item.record)
  | .moment => some none
  | .boolean _ | .text _ | .number => none

/-- The setting at a position of a section that may be missing. -/
def sectionFlag? (s : Option Toml.Item) (key : String) (position : Nat) : Option Bool :=
  match s with
  | none => some false
  | some s => do flag? (← sectionItem? s key position)

def ofEntries? (es : Toml.Entries) : Option Settings := do
  guard (es.all fun e => e.1 == "lower" || e.1 == "diagnostics")
  let lower := es.find? "lower"
  let diagnostics := es.find? "diagnostics"
  return ⟨← sectionFlag? lower "hierarchy_only" 0, ← sectionFlag? diagnostics "deny_unsupported" 0,
    ← sectionFlag? diagnostics "verbose" 1⟩

/-- Reads the settings of a TOML document. -/
def ofToml? (document : String) : Option Settings := do ofEntries? (← Toml.parse? document)

/-- The document that holds all settings. -/
def toToml (s : Settings) : String :=
  "[lower]\nhierarchy_only = " ++ toString s.hierarchyOnly ++
  "\n\n[diagnostics]\ndeny_unsupported = " ++ toString s.denyUnsupported ++
  "\nverbose = " ++ toString s.verbose ++ "\n"

/-- Why settings were not read from a file. -/
inductive Failure where
  | unreadable (path : String)
  | unfit (path : String)
deriving DecidableEq, Repr

def Failure.message : Failure → String
  | unreadable path => "Failed to read config file: " ++ path
  | unfit path => "Failed to parse config file: " ++ path

/-- What lies behind a failure. -/
def Failure.cause : Failure → String
  | unreadable _ => "there is no text at this path"
  | unfit _ => "the text is no TOML document of settings"

def ofFile (d : Directory) (path : String) : Except Failure Settings :=
  match d.read? path with
  | none => .error (.unreadable path)
  | some document =>
    match ofToml? document with
    | none => .error (.unfit path)
    | some s => .ok s

/-- The file that is looked for if no other is named. -/
def fileName : String := "hdlconv.toml"

/-- The settings of the named file, or else of the usual file in a directory, if there is one. -/
def load (d : Directory) (named : Option String) (dir : String) : Except Failure Settings :=
  match named with
  | some path => ofFile d path
  | none =>
    if d.isFile (Directory.join dir fileName) then ofFile d (Directory.join dir fileName)
    else .ok default

end Settings

end VhdlLowering
