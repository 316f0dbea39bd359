import VhdlLowering.CommandLine
import VhdlLowering.Proofs.Conversions
import VhdlLowering.Proofs.Reading

/-!
# Command lines and settings files

A command line that is accepted is made of flags, of a settings file and of a path. What a run
leaves depends on the path, on the text there and on the settings in effect; whether a setting is
put on by a flag or by a settings file makes no difference.
-/

namespace VhdlLowering

namespace CommandLine

namespace Flag

/-- Whether a flag is on in the settings. -/
def isOn : Flag → Settings → Bool
  | hierarchyOnly => Settings.hierarchyOnly
  | denyUnsupported => Settings.denyUnsupported
  | verbose => Settings.verbose

@[simp] theorem isOn_default (f : Flag) : f.isOn .default = false := by
  cases f <;> rfl

@[simp] theorem isOn_or (f : Flag) (s t : Settings) : f.isOn (s.or t) = (f.isOn s || f.isOn t) := by
  cases f <;> rfl

@[simp] theorem isOn_settings (f g : Flag) : f.isOn g.settings = decide (f = g) := by
  cases f <;> cases g <;> rfl

theorem ext_isOn {s t : Settings} (h : ∀ f : Flag, f.isOn s = f.isOn t) : s = t := by
  cases s
  cases t
  cases h hierarchyOnly
  cases h denyUnsupported
  cases h verbose
  rfl

/-- The arguments that put a flag on. -/
def spellings : Flag → List String
  | hierarchyOnly => ["--hierarchy-only"]
  | denyUnsupported => ["--deny-unsupported"]
  | verbose => ["--verbose", "-v"]

theorem mem_spellings (f : Flag) : "--" ++ f.name ∈ f.spellings := by
  cases f <;> decide

theorem isOption_of_mem_spellings {f : Flag} {arg : String} (h : arg ∈ f.spellings) :
    isOption arg = true := by
  revert arg
  cases f <;> decide

/-- An argument puts one flag on at most. -/
theorem eq_of_mem_spellings {f g : Flag} {arg : String} (hf : arg ∈ f.spellings)
    (hg : arg ∈ g.spellings) : f = g := by
  revert arg
  cases f <;> cases g <;> decide

end Flag

/-- The arguments in front of two dashes. -/
def optionsOf (args : List String) : List String := args.takeWhile (· ≠ "--")

/-- A flag is given in front of two dashes. -/
def Gives (args : List String) (f : Flag) : Prop := ∃ arg ∈ optionsOf args, arg ∈ f.spellings

instance (args : List String) (f : Flag) : Decidable (Gives args f) :=
  inferInstanceAs (Decidable (∃ arg ∈ _, _))

/-- After the progress `p`, the arguments are those of a conversion. -/
inductive Accepts : Progress → List String → Arguments → Prop where
  | done {p : Progress} {path : String} :
      p.path = some path → Accepts p [] ⟨path, p.settingsFile, p.flags⟩
  | dashes {p q : Progress} {path : String} {rest : List String} :
      rest.foldlM Progress.addPath p = .ok q → q.path = some path →
      Accepts p ("--" :: rest) ⟨path, q.settingsFile, q.flags⟩
  | flag {p q : Progress} {f : Flag} {arg : String} {rest : List String} {a : Arguments} :
      arg ∈ f.spellings → p.addFlag f = .ok q → Accepts q rest a → Accepts p (arg :: rest) a
  | file {p q : Progress} {value : String} {rest : List String} {a : Arguments} :
      isOption value = false → p.addFile value = .ok q → Accepts q rest a →
      Accepts p ("--config" :: value :: rest) a
  | fileAfterSign {p q : Progress} {value : String} {rest : List String} {a : Arguments} :
      p.addFile value = .ok q → Accepts q rest a → Accepts p (("--config=" ++ value) :: rest) a
  | path {p q : Progress} {value : String} {rest : List String} {a : Arguments} :
      isOption value = false → p.addPath value = .ok q → Accepts q rest a →
      Accepts p (value :: rest) a

theorem finish_eq_ok {p : Progress} {a : Arguments} : p.finish = .ok (.convert a) ↔
    ∃ path, p.path = some path ∧ ⟨path, p.settingsFile, p.flags⟩ = a := by
  rw [Progress.finish]
  cases p.path <;> simp

/-- A long option is its name, or its name and its value with an equality sign between. -/
theorem splitValue_spec (cs : List Char) :
    cs = (splitValue cs).1.toList ++ (splitValue cs).2.elim [] fun value => '=' :: value.toList := by
  have hparts := cs.takeWhile_append_dropWhile (p := (· != '='))
  have hstop := cs.head?_dropWhile_not (· != '=')
  have hrest : cs.drop (cs.takeWhile (· != '=')).length = cs.dropWhile (· != '=') := by
    calc
      _ = (cs.takeWhile (· != '=') ++ cs.dropWhile (· != '=')).drop _ := by rw [hparts]
      _ = _ := List.drop_left
  rw [splitValue, hrest]
  cases hvalue : cs.dropWhile (· != '=') with
  | nil => simpa [hvalue] using hparts.symm
  | cons c value =>
    have hsign : c = '=' := by simpa [hvalue] using hstop
    simpa [hvalue, hsign] using hparts.symm

theorem eq_of_splitValue {arg name : String} {cs : List Char} {value : Option String}
    (harg : arg.toList = '-' :: '-' :: cs) (h : splitValue cs = (name, value)) :
    arg = "--" ++ name ++ value.elim "" ("=" ++ ·) := by
  have hcs := splitValue_spec cs
  rw [h] at hcs
  apply String.toList_injective
  rw [harg, hcs]
  cases value <;> simp

theorem addFlag_eq_ok {p q : Progress} {f : Flag} :
    p.addFlag f = .ok q ↔ f.isOn p.flags = false ∧ q = { p with flags := p.flags.or f.settings } := by
  have hrepeated : p.flags.or f.settings = p.flags ↔ f.isOn p.flags = true := by
    constructor
    · intro h
      have hon : f.isOn (p.flags.or f.settings) = true := by simp
      rwa [h] at hon
    · intro h
      refine Flag.ext_isOn fun g => ?_
      by_cases hg : g = f <;> simp [hg, h]
  rw [Progress.addFlag]
  by_cases h : f.isOn p.flags = true
  · simp [hrepeated.mpr h, h]
  · rw [if_neg (hrepeated.not.mpr h)]
    simp [h, eq_comm]

/-- The reading of short options goes on after a letter only if it is that of a flag. -/
theorem readLetters_eq_some {p q : Progress} {c : Char} {cs : List Char}
    (h : readLetters p (c :: cs) = .ok (some q)) :
    c = 'v' ∧ ∃ r, p.addFlag .verbose = .ok r ∧ readLetters r cs = .ok (some q) := by
  rw [readLetters.eq_def] at h
  split at h
  · rename_i heq
    cases heq
  · rename_i heq
    cases heq
    exact ⟨rfl, Json.bind_eq_ok.mp h⟩
  · cases h
  · cases h

/-- A flag is given once only, so its letter stands alone. -/
theorem letters_eq_singleton {p q : Progress} {c : Char} {cs : List Char}
    (h : readLetters p (c :: cs) = .ok (some q)) :
    c :: cs = ['v'] ∧ p.addFlag .verbose = .ok q := by
  obtain ⟨rfl, r, hr, h⟩ := readLetters_eq_some h
  cases cs with
  | nil =>
    cases h
    exact ⟨rfl, hr⟩
  | cons c cs =>
    obtain ⟨-, t, ht, -⟩ := readLetters_eq_some h
    obtain ⟨-, rfl⟩ := addFlag_eq_ok.mp hr
    have honce := (addFlag_eq_ok.mp ht).1
    simp at honce

theorem accepts_of_readArguments {p : Progress} {args : List String} {a : Arguments}
    (h : readArguments p args = .ok (.convert a)) : Accepts p args a := by
  -- One case for each way to go on; the ways that end in an error or in help come last.
  fun_induction readArguments p args with
  | case1 p =>
    obtain ⟨path, hpath, rfl⟩ := finish_eq_ok.mp h
    exact .done hpath
  | case2 p rest =>
    obtain ⟨q, hq, h⟩ := Json.bind_eq_ok.mp h
    obtain ⟨path, hpath, rfl⟩ := finish_eq_ok.mp h
    exact .dashes hq hpath
  | case4 p arg rest _ cs hcs value hvalue ih =>
    obtain ⟨q, hq, h⟩ := Json.bind_eq_ok.mp h
    have harg : arg = "--config=" ++ value := by
      rw [eq_of_splitValue hcs hvalue, Option.elim_some, ← String.append_assoc]
      rfl
    exact harg ▸ .fileAfterSign hq (ih q h)
  | case7 p arg _ cs hcs hvalue value rest hoption ih =>
    obtain ⟨q, hq, h⟩ := Json.bind_eq_ok.mp h
    have harg : arg = "--config" := eq_of_splitValue hcs hvalue
    exact harg ▸ .file (by simpa using hoption) hq (ih q h)
  | case8 p arg rest _ cs hcs name f hf _ _ _ hname ih =>
    obtain ⟨q, hq, h⟩ := Json.bind_eq_ok.mp h
    have hname' : f.name = name := by simpa using List.find?_some hf
    have harg : arg = "--" ++ f.name := by
      rw [eq_of_splitValue hcs hname, hname']
      simp
    exact .flag (harg ▸ f.mem_spellings) hq (ih q h)
  | case11 p arg rest _ c cs _ hcs ih =>
    obtain ⟨r, hr, h⟩ := Json.bind_eq_ok.mp h
    cases r with
    | none => cases h
    | some q =>
      obtain ⟨hletters, hq⟩ := letters_eq_singleton hr
      have harg : arg = "-v" := String.toList_injective (hcs.trans (congrArg _ hletters))
      exact .flag (harg ▸ by decide) hq (ih q h)
  | case12 p arg rest _ hlong hshort ih =>
    obtain ⟨q, hq, h⟩ := Json.bind_eq_ok.mp h
    have hoption : isOption arg = false := by
      rw [isOption]
      split
      · exact (hshort _ _ ‹_›).elim
      · rfl
    exact .path hoption hq (ih q h)
  | case3 | case5 | case6 | case9 | case10 => cases h

theorem readArguments_flag {f : Flag} {arg : String} (h : arg ∈ f.spellings) (p : Progress)
    (rest : List String) :
    readArguments p (arg :: rest) = (do readArguments (← p.addFlag f) rest) := by
  cases f with
  | hierarchyOnly | denyUnsupported =>
    obtain rfl := List.mem_singleton.mp h
    rw [readArguments.eq_def]
    simp [splitValue, Flag.ofName?, Flag.name]
  | verbose =>
    rcases List.mem_pair.mp h with rfl | rfl
    · rw [readArguments.eq_def]
      simp [splitValue, Flag.ofName?, Flag.name]
    · rw [readArguments.eq_def]
      simp [readLetters]
      cases p.addFlag .verbose <;> rfl

theorem readArguments_file {value : String} (h : isOption value = false) (p : Progress)
    (rest : List String) :
    readArguments p ("--config" :: value :: rest) = (do readArguments (← p.addFile value) rest) := by
  rw [readArguments.eq_def]
  simp [splitValue, h]

theorem readArguments_fileAfterSign (p : Progress) (value : String) (rest : List String) :
    readArguments p (("--config=" ++ value) :: rest) =
      (do readArguments (← p.addFile value) rest) := by
  have hcs : ("--config=" ++ value).toList =
      '-' :: '-' :: ("config".toList ++ '=' :: value.toList) := by simp
  have hsplit : splitValue ("config".toList ++ '=' :: value.toList) = ("config", some value) := by
    simp [splitValue]
  rw [readArguments.eq_def]
  split
  · cases ‹_ :: rest = []›
  · rename_i heq
    rw [(List.cons.inj heq).1] at hcs
    exact absurd hcs (by simp)
  · rename_i heq
    cases heq
    simp only [hcs, hsplit]

theorem readArguments_path {value : String} (h : isOption value = false) (p : Progress)
    (rest : List String) :
    readArguments p (value :: rest) = (do readArguments (← p.addPath value) rest) := by
  have hdashes : value ≠ "--" := by
    rintro rfl
    exact Bool.noConfusion h
  have hlong : ∀ c cs, value.toList ≠ '-' :: c :: cs := by
    intro c cs hcs
    rw [isOption, hcs] at h
    cases h
  rw [readArguments.eq_def]
  split
  · cases ‹value :: rest = []›
  · rename_i heq
    exact absurd (List.cons.inj heq).1 hdashes
  · rename_i heq
    cases heq
    split
    · exact absurd ‹_› (hlong _ _)
    · exact absurd ‹_› (hlong _ _)
    · rfl

theorem readArguments_of_accepts {p : Progress} {args : List String} {a : Arguments}
    (h : Accepts p args a) : readArguments p args = .ok (.convert a) := by
  induction h with
  | done hpath => exact finish_eq_ok.mpr ⟨_, hpath, rfl⟩
  | dashes hq hpath =>
    exact Json.bind_eq_ok.mpr ⟨_, hq, finish_eq_ok.mpr ⟨_, hpath, rfl⟩⟩
  | flag harg hq _ ih =>
    rw [readArguments_flag harg]
    exact Json.bind_eq_ok.mpr ⟨_, hq, ih⟩
  | file hvalue hq _ ih =>
    rw [readArguments_file hvalue]
    exact Json.bind_eq_ok.mpr ⟨_, hq, ih⟩
  | fileAfterSign hq _ ih =>
    rw [readArguments_fileAfterSign]
    exact Json.bind_eq_ok.mpr ⟨_, hq, ih⟩
  | path hvalue hq _ ih =>
    rw [readArguments_path hvalue]
    exact Json.bind_eq_ok.mpr ⟨_, hq, ih⟩

/-- The arguments of a conversion are those that the grammar accepts. -/
theorem readArguments_eq_ok {p : Progress} {args : List String} {a : Arguments} :
    readArguments p args = .ok (.convert a) ↔ Accepts p args a :=
  ⟨accepts_of_readArguments, readArguments_of_accepts⟩

theorem parse_eq_ok {args : List String} {a : Arguments} :
    parse args = .ok (.convert a) ↔ ∃ rest, args = "convert" :: rest ∧ Accepts .start rest a := by
  constructor
  · intro h
    unfold parse at h
    split at h
    · cases h
    · exact ⟨_, rfl, readArguments_eq_ok.mp h⟩
    · rename_i rest
      cases htopic : readTopic rest <;> rw [htopic] at h <;> cases h
    · repeat' split at h
      all_goals cases h
  · rintro ⟨rest, rfl, h⟩
    exact readArguments_eq_ok.mpr h

theorem gives_cons {arg : String} {rest : List String} {f : Flag} (h : arg ≠ "--") :
    Gives (arg :: rest) f ↔ arg ∈ f.spellings ∨ Gives rest f := by
  simp [Gives, optionsOf, h]

/-- What is no option gives no flag. -/
theorem gives_cons_of_not_option {arg : String} {rest : List String} {f : Flag}
    (h : isOption arg = false) : Gives (arg :: rest) f ↔ Gives rest f := by
  have hdashes : arg ≠ "--" := by
    rintro rfl
    exact Bool.noConfusion h
  have hflag : arg ∉ f.spellings := fun hmem => by
    rw [Flag.isOption_of_mem_spellings hmem] at h
    cases h
  rw [gives_cons hdashes, or_iff_right hflag]

theorem flags_of_addFile {p q : Progress} {value : String} (h : p.addFile value = .ok q) :
    q.flags = p.flags := by
  rw [Progress.addFile] at h
  split at h
  · cases h
  · split at h <;> cases h
    rfl

theorem flags_of_addPath {p q : Progress} {value : String} (h : p.addPath value = .ok q) :
    q.flags = p.flags := by
  rw [Progress.addPath] at h
  split at h
  · cases h
  · split at h <;> cases h
    rfl

theorem flags_foldlM_addPath {p q : Progress} {args : List String}
    (h : args.foldlM Progress.addPath p = .ok q) : q.flags = p.flags := by
  induction args generalizing p with
  | nil =>
    cases h
    rfl
  | cons arg args ih =>
    obtain ⟨r, hr, h⟩ := Json.bind_eq_ok.mp h
    exact (ih h).trans (flags_of_addPath hr)

/-- The flags of an accepted command line are those that are given. -/
theorem Accepts.isOn_flags {p : Progress} {args : List String} {a : Arguments}
    (h : Accepts p args a) (f : Flag) :
    f.isOn a.flags = true ↔ f.isOn p.flags = true ∨ Gives args f := by
  induction h with
  | done => simp [Gives, optionsOf]
  | dashes hq => simp [Gives, optionsOf, flags_foldlM_addPath hq]
  | @flag p q g arg rest a harg hq _ ih =>
    obtain ⟨-, rfl⟩ := addFlag_eq_ok.mp hq
    have hmem : arg ∈ f.spellings ↔ f = g :=
      ⟨fun h => Flag.eq_of_mem_spellings h harg, fun h => h ▸ harg⟩
    have hdashes : arg ≠ "--" := by
      rintro rfl
      exact absurd harg (by cases g <;> decide)
    rw [ih, gives_cons hdashes, hmem, Flag.isOn_or, Flag.isOn_settings]
    simp [or_assoc]
  | file hvalue hq _ ih =>
    have hdashes : "--config" ≠ "--" := by decide
    have hflag : "--config" ∉ f.spellings := by cases f <;> decide
    rw [ih, flags_of_addFile hq, gives_cons hdashes, or_iff_right hflag,
      gives_cons_of_not_option hvalue]
  | @fileAfterSign p q value rest a hq _ ih =>
    have hletter : ("--config=" ++ value).toList[2]? = some 'c' := by simp
    have hdashes : "--config=" ++ value ≠ "--" := by
      intro h
      rw [h] at hletter
      revert hletter
      decide
    have hflag : "--config=" ++ value ∉ f.spellings := by
      have hspelling : ∀ arg ∈ f.spellings, arg.toList[2]? ≠ some 'c' := by cases f <;> decide
      exact fun h => hspelling _ h hletter
    rw [ih, flags_of_addFile hq, gives_cons hdashes, or_iff_right hflag]
  | path hvalue hq _ ih => rw [ih, flags_of_addPath hq, gives_cons_of_not_option hvalue]

theorem isOn_flags_of_parse {args : List String} {a : Arguments}
    (h : parse args = .ok (.convert a)) (f : Flag) : f.isOn a.flags = true ↔ Gives args f := by
  obtain ⟨rest, rfl, haccepts⟩ := parse_eq_ok.mp h
  have hcommand : isOption "convert" = false := by decide
  rw [haccepts.isOn_flags, gives_cons_of_not_option hcommand]
  simp [Progress.start]

/-- The settings that a run consults: those of the file that is named, or else of the usual file, if
there is one. -/
inductive Consults (d : Directory) : Option String → Settings → Prop where
  | named {path document : String} {s : Settings} :
      d.read? path = some document → Settings.ofToml? document = some s → Consults d (some path) s
  | usual {document : String} {s : Settings} :
      d.isFile "hdlconv.toml" = true → d.read? "hdlconv.toml" = some document →
      Settings.ofToml? document = some s → Consults d none s
  | absent : d.isFile "hdlconv.toml" = false → Consults d none .default

theorem ofFile_eq_ok {d : Directory} {path : String} {s : Settings} :
    Settings.ofFile d path = .ok s ↔
      ∃ document, d.read? path = some document ∧ Settings.ofToml? document = some s := by
  rw [Settings.ofFile]
  cases d.read? path with
  | none => simp
  | some document => cases hs : Settings.ofToml? document <;> simp [hs]

theorem load_eq_ok {d : Directory} {named : Option String} {s : Settings} :
    Settings.load d named "" = .ok s ↔ Consults d named s := by
  have husual : Directory.join "" Settings.fileName = "hdlconv.toml" := by decide +kernel
  cases named with
  | some path =>
    rw [Settings.load, ofFile_eq_ok]
    constructor
    · rintro ⟨document, hdocument, hs⟩
      exact .named hdocument hs
    · rintro ⟨⟩
      exact ⟨_, ‹_›, ‹_›⟩
  | none =>
    rw [Settings.load, husual]
    cases hfile : d.isFile "hdlconv.toml" with
    | false =>
      constructor
      · rintro ⟨⟩
        exact .absent hfile
      · intro h
        cases h with
        | usual hfile' => simp [hfile] at hfile'
        | absent => rfl
    | true =>
      rw [if_pos rfl, ofFile_eq_ok]
      constructor
      · rintro ⟨document, hdocument, hs⟩
        exact .usual hfile hdocument hs
      · intro h
        cases h with
        | usual _ hdocument hs => exact ⟨_, hdocument, hs⟩
        | absent hfile' => simp [hfile] at hfile'

section Runs

variable {render : Diagnostic → String} {d e : Directory} {args : List String} {a b : Arguments}
  {s t : Settings}

/-- A flag is in effect if it is on in the settings or given. -/
def InEffect (args : List String) (s : Settings) (f : Flag) : Prop :=
  f.isOn s = true ∨ Gives args f

theorem isOn_or_flags (hparse : parse args = .ok (.convert a)) (f : Flag) :
    f.isOn (s.or a.flags) = true ↔ InEffect args s f := by
  rw [Flag.isOn_or, Bool.or_eq_true, isOn_flags_of_parse hparse, InEffect]

theorem execute_of_parse (hparse : parse args = .ok (.convert a)) :
    execute render d args = convert render d a := by
  rw [execute, hparse]

/-- A run looks at its settings, at the path and at the text there. -/
theorem convert_eq_of (hs : Consults d a.settingsFile s) (ht : Consults e b.settingsFile t)
    (hpath : b.path = a.path) (htext : e.read? a.path = d.read? a.path)
    (hsettings : t.or b.flags = s.or a.flags) : convert render e b = convert render d a := by
  rw [convert, convert, load_eq_ok.mpr hs, load_eq_ok.mpr ht]
  simp only [hpath, hsettings, Conversion.run_eq_of_read?_eq htext]

theorem code_convert_of (hs : Consults d a.settingsFile s) :
    (convert render d a).code = 0 ↔
      (Conversion.run render d (s.or a.flags) a.path).failure = none := by
  simp only [convert, load_eq_ok.mpr hs]
  cases (Conversion.run render d (s.or a.flags) a.path).failure <;> simp

theorem exists_consults_of_code (h : (convert render d a).code = 0) :
    ∃ s, Consults d a.settingsFile s := by
  rw [convert] at h
  cases hload : Settings.load d a.settingsFile "" with
  | error failure =>
    rw [hload] at h
    cases h
  | ok s => exact ⟨s, load_eq_ok.mp hload⟩

/-- With a settings file that is named, a run looks at that file and at the text at the path. -/
theorem convert_eq_of_named {file : String} (hfile : a.settingsFile = some file)
    (hsettings : e.read? file = d.read? file) (htext : e.read? a.path = d.read? a.path) :
    convert render e a = convert render d a := by
  simp only [convert, hfile, Settings.load, Settings.ofFile, hsettings,
    Conversion.run_eq_of_read?_eq htext]

end Runs

/-- A package with a use clause, and a settings file beside it. -/
def besideSettings (document : String) : Directory where
  find? path :=
    if path = "hdlconv.toml" then some (.text document) else Conversion.useClauseFile.find? path

end CommandLine
end VhdlLowering
