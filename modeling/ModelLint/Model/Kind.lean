namespace ModelLint

/-! The kinds of objects, syntax nodes, types and symbols.

Each kind has a label, which is its name in a model file. -/

inductive ObjectKind where
  | table
  | tableExtension
  | page
  | pageExtension
  | pageCustomization
  | codeunit
  | report
  | reportExtension
  | query
  | xmlPort
  | enum
  | enumExtension
  | interface
  | controlAddIn
  | profile
  | profileExtension
  | permissionSet
deriving DecidableEq, Repr, Inhabited

namespace ObjectKind

def label : ObjectKind → String
  | table => "Table"
  | tableExtension => "TableExtension"
  | page => "Page"
  | pageExtension => "PageExtension"
  | pageCustomization => "PageCustomization"
  | codeunit => "Codeunit"
  | report => "Report"
  | reportExtension => "ReportExtension"
  | query => "Query"
  | xmlPort => "XmlPort"
  | enum => "Enum"
  | enumExtension => "EnumExtension"
  | interface => "Interface"
  | controlAddIn => "ControlAddIn"
  | profile => "Profile"
  | profileExtension => "ProfileExtension"
  | permissionSet => "PermissionSet"

def all : List ObjectKind :=
  [table, tableExtension, page, pageExtension, pageCustomization, codeunit, report,
    reportExtension, query, xmlPort, enum, enumExtension, interface, controlAddIn, profile,
    profileExtension, permissionSet]

def ofLabel? (label : String) : Option ObjectKind :=
  all.find? fun kind => kind.label == label

/-- Pages and page extensions, whose triggers run for every record shown. -/
def isPageLike (kind : ObjectKind) : Bool :=
  kind = page || kind = pageExtension

end ObjectKind

inductive NodeKind where
  /-- Root of a file. -/
  | compilationUnit
  /-- Namespace declaration, with the dotted name as text. -/
  | namespaceDeclaration
  | object (kind : ObjectKind)
  | procedure
  | trigger
  | parameter
  | variableDeclaration
  /-- Attribute, with its name as text. -/
  | attributeUse
  /-- Property, with its name as text. -/
  | property
  | block
  /-- `[target, statements...]` -/
  | withStatement
  | ifStatement
  | repeatLoop
  | whileLoop
  | forLoop
  | exitStatement
  | expressionStatement
  /-- `[target, source]` -/
  | assignment
  /-- `[target, source]`, with the operator as text. -/
  | compoundAssignment
  /-- `[callee, arguments...]` -/
  | invocation
  /-- `[receiver, member]` -/
  | memberAccess
  | identifier
  | literal
  | binary
  /-- Field of a table. -/
  | field
  /-- Field shown on a page: `[source expression, properties...]`. -/
  | pageField
  | other
deriving DecidableEq, Repr, Inhabited

namespace NodeKind

/-- The label of a kind. That of every object is the same. -/
def label : NodeKind → String
  | compilationUnit => "CompilationUnit"
  | namespaceDeclaration => "Namespace"
  | object _ => "Object"
  | procedure => "Procedure"
  | trigger => "Trigger"
  | parameter => "Parameter"
  | variableDeclaration => "VariableDeclaration"
  | attributeUse => "Attribute"
  | property => "Property"
  | block => "Block"
  | withStatement => "With"
  | ifStatement => "If"
  | repeatLoop => "Repeat"
  | whileLoop => "While"
  | forLoop => "For"
  | exitStatement => "Exit"
  | expressionStatement => "ExpressionStatement"
  | assignment => "Assignment"
  | compoundAssignment => "CompoundAssignment"
  | invocation => "Invocation"
  | memberAccess => "MemberAccess"
  | identifier => "Identifier"
  | literal => "Literal"
  | binary => "Binary"
  | field => "Field"
  | pageField => "PageField"
  | other => "Other"

/-- The kinds that are not objects. -/
def plain : List NodeKind :=
  [compilationUnit, namespaceDeclaration, procedure, trigger, parameter, variableDeclaration,
    attributeUse, property, block, withStatement, ifStatement, repeatLoop, whileLoop, forLoop,
    exitStatement, expressionStatement, assignment, compoundAssignment, invocation, memberAccess,
    identifier, literal, binary, field, pageField, other]

def isLoop (kind : NodeKind) : Bool :=
  kind = repeatLoop || kind = whileLoop || kind = forLoop

/-- Procedures and triggers, which hold code of their own. -/
def isCode (kind : NodeKind) : Bool :=
  kind = procedure || kind = trigger

def objectKind? : NodeKind → Option ObjectKind
  | object kind => some kind
  | _ => none

end NodeKind

inductive TypeKind where
  | record
  | text
  | code
  | bigText
  | textBuilder
  | integer
  | decimal
  | boolean
  | dateTime
  | enum
  | page
  | report
  | codeunit
  | query
  | xmlPort
  | interface
  | dotNet
  | other
deriving DecidableEq, Repr, Inhabited

namespace TypeKind

def label : TypeKind → String
  | record => "Record"
  | text => "Text"
  | code => "Code"
  | bigText => "BigText"
  | textBuilder => "TextBuilder"
  | integer => "Integer"
  | decimal => "Decimal"
  | boolean => "Boolean"
  | dateTime => "DateTime"
  | enum => "Enum"
  | page => "Page"
  | report => "Report"
  | codeunit => "Codeunit"
  | query => "Query"
  | xmlPort => "XmlPort"
  | interface => "Interface"
  | dotNet => "DotNet"
  | other => "Other"

def all : List TypeKind :=
  [record, text, code, bigText, textBuilder, integer, decimal, boolean, dateTime, enum, page,
    report, codeunit, query, xmlPort, interface, dotNet, other]

/-- The types whose values are strings that an append copies. -/
def isText (kind : TypeKind) : Bool :=
  kind = text || kind = code || kind = bigText

end TypeKind

inductive SymbolKind where
  /-- Variable of an object. -/
  | globalVariable
  | localVariable
  | parameter
  /-- Field of a table. -/
  | field
  /-- Procedure, trigger or built-in method. -/
  | method
  | object (kind : ObjectKind)
deriving DecidableEq, Repr, Inhabited

namespace SymbolKind

/-- The label of a kind. That of every object is the same. -/
def label : SymbolKind → String
  | globalVariable => "GlobalVariable"
  | localVariable => "LocalVariable"
  | parameter => "Parameter"
  | field => "Field"
  | method => "Method"
  | object _ => "Object"

/-- The kinds that are not objects. -/
def plain : List SymbolKind :=
  [globalVariable, localVariable, parameter, field, method]

def isVariable (kind : SymbolKind) : Bool :=
  kind = globalVariable || kind = localVariable || kind = parameter

end SymbolKind

end ModelLint
