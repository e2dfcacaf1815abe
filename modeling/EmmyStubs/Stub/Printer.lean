import EmmyStubs.Number.Limit
import EmmyStubs.Stub.Signature

/-! # Text of declarations

    An enumeration is a table of numbers under an enum line; it has no text where one of them
    has too many digits.  A class is a header with its
    fields and operators, then one function stub per method and one for the constructor, each
    below its own annotation lines and apart from its neighbours by an empty line. -/

namespace EmmyStubs.Stub

/-! ## §1. Members -/

def Field.line (f : Field) : String :=
  if f.access.isRestricted then
    "---@field " ++ f.access.name ++ " " ++ f.name ++ " " ++ f.type
  else "---@field " ++ f.name ++ " " ++ f.type

def Operator.line (o : Operator) : String :=
  if o.binary then "---@operator " ++ o.name ++ "(" ++ o.operandType ++ "): " ++ o.resultType
  else "---@operator " ++ o.name ++ ": " ++ o.resultType

/-- The line of a restricted access, if it is one. -/
def accessLines (a : Access) : List String :=
  if a.isRestricted then ["---@" ++ a.name] else []

def asyncLines (isAsync : Bool) : List String :=
  if isAsync then ["---@async"] else []

def returnLines (returnType : String) : List String :=
  if returnType = Lua.void then [] else ["---@return " ++ returnType]

/-- The stub line of a method. -/
def methodStub (className name : String) (isInstance : Bool) (ps : List Parameter) : String :=
  "function " ++ Lua.rootTable ++ "." ++ className ++ (if isInstance then ":" else ".") ++ name
    ++ "(" ++ callList ps ++ ") end"

/-- The lines of a method, its stub last. -/
def Method.lines : Method → List String
  | .group m =>
    accessLines m.access ++ asyncLines m.isAsync ++ m.overloads.map Overload.line
      ++ m.parameters.map Parameter.line ++ returnLines m.returnType
      ++ [methodStub m.className m.name m.isInstance m.parameters]
  | .generic m =>
    accessLines m.access ++ asyncLines m.isAsync ++ m.genericParameters.map GenericParameter.line
      ++ m.parameters.map Parameter.line ++ returnLines m.returnType
      ++ [methodStub m.className m.name m.isInstance m.parameters]

/-- The lines of a constructor, its stub last. -/
def Constructor.lines (c : Constructor) : List String :=
  accessLines c.access ++ c.overloads.map Overload.line ++ c.parameters.map Parameter.line
    ++ ["---@return " ++ c.className,
        "function " ++ Lua.rootTable ++ "." ++ c.className ++ "(" ++ callList c.parameters
          ++ ") end"]

def Method.text (m : Method) : String :=
  "\n".intercalate m.lines

def Constructor.text (c : Constructor) : String :=
  "\n".intercalate c.lines

/-! ## §2. Declarations -/

/-- The line of a member, if its value can be written. -/
def EnumMember.line? (m : EnumMember) : Option String :=
  (Number.decimalText? m.value).map fun digits => "    " ++ m.name ++ " = " ++ digits

/-- The text of an enumeration, if all its values can be written. -/
def EnumDeclaration.text? (d : EnumDeclaration) : Option String := do
  let lines ← d.members.mapM EnumMember.line?
  return "---@enum " ++ d.name ++ "\n" ++ Lua.rootTable ++ "." ++ d.name ++ " = \x7b\n"
    ++ ",\n".intercalate lines ++ "\n\x7d\n"

/-- The line that opens a class, with its base types. -/
def ClassDeclaration.headLine (d : ClassDeclaration) : String :=
  "---@class " ++ d.name
    ++ if d.baseTypes.isEmpty then "" else ": " ++ ", ".intercalate d.baseTypes

/-- The lines of the header, the table itself last. -/
def ClassDeclaration.headerLines (d : ClassDeclaration) : List String :=
  d.headLine :: d.fields.map Field.line ++ d.operators.map Operator.line
    ++ [Lua.rootTable ++ "." ++ d.name ++ " = \x7b\x7d"]

def ClassDeclaration.text (d : ClassDeclaration) : String :=
  "\n".intercalate d.headerLines ++ "\n\n"
    ++ String.join (d.methods.map fun m => m.text ++ "\n\n")
    ++ match d.constructor with
      | some c => c.text ++ "\n"
      | none => ""

/-- The text of a declaration, if all numbers in it can be written. -/
def Declaration.text? : Declaration → Option String
  | .enum d => d.text?
  | .cls d => some d.text

/-- The declarations of one namespace under its header, an empty line before each. -/
def namespaceBlock (space : Option String) (texts : List String) : String :=
  let name := match space with
    | some s => if s = "" then Lua.noNamespace else s
    | none => Lua.noNamespace
  "---Namespace: " ++ name ++ "\n" ++ String.join (texts.map ("\n" ++ ·))

end EmmyStubs.Stub
