/-!
# Grammar rules and node kinds

A front end labels every node of a syntax tree with the name of a grammar rule or of a token.
The rules that lowering knows form a closed type; every other label is kept by its name. The mode
of a port has two names in the grammars in use, and both are read as the same rule.
-/

namespace VhdlLowering

/-- Grammar rules that lowering knows. -/
inductive Rule where
  | designFile
  | designUnit
  | libraryUnit
  | primaryUnit
  | secondaryUnit
  | contextClause
  | contextItem
  | libraryClause
  | useClause
  | packageDeclaration
  | packageHeader
  | packageDeclarativePart
  | packageDeclarativeItem
  | genericClause
  | genericMapAspect
  | portClause
  | interfaceList
  | interfaceElement
  | interfaceConstantDeclaration
  | interfaceSignalDeclaration
  | interfaceVariableDeclaration
  | interfaceFileDeclaration
  | interfaceDeclaration
  | interfaceObjectDeclaration
  | interfaceTypeDeclaration
  | interfaceSubprogramDeclaration
  | interfacePackageDeclaration
  | mode
  | identifier
  | identifierList
  | subtypeIndication
  | typeMark
  | expression
  | subprogramDeclaration
  | subprogramSpecification
  | procedureSpecification
  | functionSpecification
  | designator
  | formalParameterList
  | subprogramInstantiationDeclaration
  | packageInstantiationDeclaration
  | typeDeclaration
  | fullTypeDeclaration
  | incompleteTypeDeclaration
  | typeDefinition
  | enumerationTypeDefinition
  | enumerationLiteral
  | subtypeDeclaration
  | constantDeclaration
  | signalDeclaration
  | variableDeclaration
  | fileDeclaration
  | aliasDeclaration
  | componentDeclaration
  | attributeDeclaration
  | attributeSpecification
  | disconnectionSpecification
  | groupTemplateDeclaration
  | groupDeclaration
deriving DecidableEq, Repr

namespace Rule

/-- Name of the rule in the grammar. -/
def name : Rule → String
  | designFile => "design_file"
  | designUnit => "design_unit"
  | libraryUnit => "library_unit"
  | primaryUnit => "primary_unit"
  | secondaryUnit => "secondary_unit"
  | contextClause => "context_clause"
  | contextItem => "context_item"
  | libraryClause => "library_clause"
  | useClause => "use_clause"
  | packageDeclaration => "package_declaration"
  | packageHeader => "package_header"
  | packageDeclarativePart => "package_declarative_part"
  | packageDeclarativeItem => "package_declarative_item"
  | genericClause => "generic_clause"
  | genericMapAspect => "generic_map_aspect"
  | portClause => "port_clause"
  | interfaceList => "interface_list"
  | interfaceElement => "interface_element"
  | interfaceConstantDeclaration => "interface_constant_declaration"
  | interfaceSignalDeclaration => "interface_signal_declaration"
  | interfaceVariableDeclaration => "interface_variable_declaration"
  | interfaceFileDeclaration => "interface_file_declaration"
  | interfaceDeclaration => "interface_declaration"
  | interfaceObjectDeclaration => "interface_object_declaration"
  | interfaceTypeDeclaration => "interface_type_declaration"
  | interfaceSubprogramDeclaration => "interface_subprogram_declaration"
  | interfacePackageDeclaration => "interface_package_declaration"
  | mode => "mode"
  | identifier => "identifier"
  | identifierList => "identifier_list"
  | subtypeIndication => "subtype_indication"
  | typeMark => "type_mark"
  | expression => "expression"
  | subprogramDeclaration => "subprogram_declaration"
  | subprogramSpecification => "subprogram_specification"
  | procedureSpecification => "procedure_specification"
  | functionSpecification => "function_specification"
  | designator => "designator"
  | formalParameterList => "formal_parameter_list"
  | subprogramInstantiationDeclaration => "subprogram_instantiation_declaration"
  | packageInstantiationDeclaration => "package_instantiation_declaration"
  | typeDeclaration => "type_declaration"
  | fullTypeDeclaration => "full_type_declaration"
  | incompleteTypeDeclaration => "incomplete_type_declaration"
  | typeDefinition => "type_definition"
  | enumerationTypeDefinition => "enumeration_type_definition"
  | enumerationLiteral => "enumeration_literal"
  | subtypeDeclaration => "subtype_declaration"
  | constantDeclaration => "constant_declaration"
  | signalDeclaration => "signal_declaration"
  | variableDeclaration => "variable_declaration"
  | fileDeclaration => "file_declaration"
  | aliasDeclaration => "alias_declaration"
  | componentDeclaration => "component_declaration"
  | attributeDeclaration => "attribute_declaration"
  | attributeSpecification => "attribute_specification"
  | disconnectionSpecification => "disconnection_specification"
  | groupTemplateDeclaration => "group_template_declaration"
  | groupDeclaration => "group_declaration"

/-- Every rule, in the order of declaration. -/
def all : List Rule :=
  [.designFile, .designUnit, .libraryUnit, .primaryUnit, .secondaryUnit, .contextClause,
   .contextItem, .libraryClause, .useClause, .packageDeclaration, .packageHeader,
   .packageDeclarativePart, .packageDeclarativeItem, .genericClause, .genericMapAspect, .portClause,
   .interfaceList, .interfaceElement, .interfaceConstantDeclaration, .interfaceSignalDeclaration,
   .interfaceVariableDeclaration, .interfaceFileDeclaration, .interfaceDeclaration,
   .interfaceObjectDeclaration, .interfaceTypeDeclaration, .interfaceSubprogramDeclaration,
   .interfacePackageDeclaration, .mode, .identifier, .identifierList, .subtypeIndication, .typeMark,
   .expression, .subprogramDeclaration, .subprogramSpecification, .procedureSpecification,
   .functionSpecification, .designator, .formalParameterList, .subprogramInstantiationDeclaration,
   .packageInstantiationDeclaration, .typeDeclaration, .fullTypeDeclaration,
   .incompleteTypeDeclaration, .typeDefinition, .enumerationTypeDefinition, .enumerationLiteral,
   .subtypeDeclaration, .constantDeclaration, .signalDeclaration, .variableDeclaration,
   .fileDeclaration, .aliasDeclaration, .componentDeclaration, .attributeDeclaration,
   .attributeSpecification, .disconnectionSpecification, .groupTemplateDeclaration,
   .groupDeclaration]

theorem mem_all (r : Rule) : r ∈ all := by
  cases r <;> decide

/-- The rule of a given name. The 2008 grammar calls the mode of a port `signal_mode`. -/
def ofName? (s : String) : Option Rule :=
  if s = "signal_mode" then some .mode else all.find? fun r => r.name == s

theorem ofName?_name (r : Rule) : ofName? r.name = some r := by
  cases r <;> decide

theorem name_injective {r s : Rule} (h : r.name = s.name) : r = s := by
  simpa [ofName?_name] using congrArg ofName? h

end Rule

/-- The label of a node: a known rule, or the name of any other rule or token. -/
inductive Kind where
  | rule (r : Rule)
  | other (name : String)
deriving DecidableEq, Repr

instance : Coe Rule Kind := ⟨Kind.rule⟩

namespace Kind

def name : Kind → String
  | rule r => r.name
  | other s => s

def ofName (s : String) : Kind :=
  match Rule.ofName? s with
  | some r => rule r
  | none => other s

@[simp] theorem name_rule (r : Rule) : (rule r).name = r.name := rfl

@[simp] theorem ofName_ruleName (r : Rule) : ofName r.name = rule r := by
  simp [ofName, Rule.ofName?_name]

instance : ToString Kind := ⟨name⟩

/-- Rule names start with a small letter; the names of tokens do not. -/
def isTokenName : Kind → Bool
  | rule _ => false
  | other s => !(s.toList.head?.any Char.isLower)

@[simp] theorem isTokenName_rule (r : Rule) : (rule r).isTokenName = false := rfl

end Kind

end VhdlLowering
