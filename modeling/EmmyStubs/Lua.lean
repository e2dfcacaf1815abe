import EmmyStubs.Graph.Descriptor
import EmmyStubs.Text.Fold

/-! # The target language

    The words of the annotation language: the tokens of the table primitives, the token for a
    value of unknown shape, the name of the root table, and the reserved words. -/

namespace EmmyStubs.Lua

/-- The type of a value about which nothing is known. -/
def userdata : String := "userdata"

/-- The type text of a method that returns nothing. -/
def void : String := ""

/-- The table that holds every declared type. -/
def rootTable : String := "CS"

/-- The name that stands for no namespace. -/
def noNamespace : String := "-"

/-- The types with a token of their own. -/
def primitives : List (Identity × String) :=
  [("System.Object", userdata), ("System.Boolean", "boolean"),
   ("System.SByte", "integer"), ("System.Int16", "integer"), ("System.Int32", "integer"),
   ("System.Int64", "integer"), ("System.Byte", "integer"), ("System.UInt16", "integer"),
   ("System.UInt32", "integer"), ("System.UInt64", "integer"), ("System.IntPtr", "integer"),
   ("System.UIntPtr", "integer"), ("System.Single", "number"), ("System.Double", "number"),
   ("System.Decimal", "number"), ("System.Char", "string"), ("System.String", "string")]

/-- The token of a primitive type. -/
def primitive? (id : Identity) : Option String :=
  (primitives.find? (·.1 == id)).map (·.2)

def keywords : List String :=
  ["and", "break", "do", "else", "elseif", "end", "false", "for", "function", "goto", "if", "in",
   "local", "nil", "not", "or", "repeat", "return", "then", "true", "until", "while"]

/-- A parameter name that is no reserved word in any mix of cases. -/
def escapeKeyword (name : String) : String :=
  if keywords.contains (Text.lower name) then "__" ++ name ++ "__" else name

/-- The operators that a class annotation knows, by the name of their method, and whether they
    take a second operand. -/
def operators : List (String × String × Bool) :=
  [("op_Addition", "add", true), ("op_Subtraction", "sub", true), ("op_Multiply", "mul", true),
   ("op_Division", "div", true), ("op_UnaryNegation", "unm", false)]

/-- The operator that a method implements. -/
def operator? (methodName : String) : Option (String × Bool) :=
  (operators.find? (·.1 == methodName)).map (·.2)

/-- A table type with one kind of key and one kind of value. -/
def tableType (key value : String) : String :=
  "\x7b [" ++ key ++ "]: " ++ value ++ " \x7d"

end EmmyStubs.Lua
