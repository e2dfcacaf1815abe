import EmmyStubs.Graph.Descriptor

/-! # Declarations

    What is written about one type, before it is text: an enumeration with its members, or a
    class with fields, operators, methods and a constructor.  Types stand in it as the texts
    they were mapped to. -/

namespace EmmyStubs

/-- A type expression, and whether it needs parentheses inside a larger one. -/
structure TypeExpr where
  text : String
  needsParens : Bool := false
  deriving DecidableEq, Repr

/-- The text of an expression; as a part of a larger one it is put in parentheses where it
    needs them. -/
def TypeExpr.render (t : TypeExpr) (asPart : Bool) : String :=
  if asPart && t.needsParens then "(" ++ t.text ++ ")" else t.text

namespace Stub

/-! ## §1. Signatures -/

structure Parameter where
  name : String
  type : String
  isOptional : Bool := false
  isVariadic : Bool := false
  deriving DecidableEq, Repr

structure GenericParameter where
  name : String
  constraint : Option String := none
  deriving DecidableEq, Repr

/-- A further signature of a method or constructor. -/
structure Overload where
  isInstance : Bool
  parameters : List Parameter := []
  returnType : String := ""
  deriving DecidableEq, Repr

/-! ## §2. Members -/

structure Field where
  name : String
  type : String
  access : Access := .unknown
  isStatic : Bool := false
  deriving DecidableEq, Repr

structure Operator where
  name : String
  resultType : String
  binary : Bool := false
  operandType : String := ""
  deriving DecidableEq, Repr

/-- Methods of one name that agree in access, instance and asynchrony: the first one, and the
    others as overloads of it. -/
structure MethodGroup where
  className : String
  name : String
  isInstance : Bool
  isAsync : Bool := false
  access : Access := .unknown
  parameters : List Parameter := []
  returnType : String := ""
  overloads : List Overload := []
  deriving DecidableEq, Repr

structure GenericMethod where
  className : String
  name : String
  isInstance : Bool
  isAsync : Bool := false
  access : Access := .unknown
  genericParameters : List GenericParameter := []
  parameters : List Parameter := []
  returnType : String := ""
  deriving DecidableEq, Repr

inductive Method where
  | group (g : MethodGroup)
  | generic (g : GenericMethod)
  deriving DecidableEq, Repr

structure Constructor where
  className : String
  access : Access := .unknown
  parameters : List Parameter := []
  overloads : List Overload := []
  deriving DecidableEq, Repr

/-! ## §3. Declarations -/

structure EnumMember where
  name : String
  value : Int
  deriving DecidableEq, Repr

structure EnumDeclaration where
  name : String
  members : List EnumMember := []
  deriving DecidableEq, Repr

structure ClassDeclaration where
  name : String
  baseTypes : List String := []
  fields : List Field := []
  operators : List Operator := []
  methods : List Method := []
  constructor : Option Constructor := none
  deriving DecidableEq, Repr

inductive Declaration where
  | enum (d : EnumDeclaration)
  | cls (d : ClassDeclaration)
  deriving DecidableEq, Repr

def Declaration.name : Declaration → String
  | .enum d => d.name
  | .cls d => d.name

/-- The text of a declaration, with what is needed to file it.  A failed one holds a note in
    place of a declaration. -/
structure Rendered where
  identity : Identity
  qualifiedName : String
  space : Option String
  text : String
  failed : Bool := false
  deriving DecidableEq, Repr

end Stub

end EmmyStubs
