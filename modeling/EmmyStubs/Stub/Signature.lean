import EmmyStubs.Lua
import EmmyStubs.Stub.Basic

/-! # Text of signatures

    The parts that every callable declaration is written with: the names in a call, the lines
    that annotate parameters, and function types. -/

namespace EmmyStubs.Stub

/-! ## §1. Parameters -/

/-- A parameter as it stands in the head of a function. -/
def Parameter.call (p : Parameter) : String :=
  if p.isVariadic then "..." else p.name

/-- A parameter as it stands in a function type. -/
def Parameter.typed (p : Parameter) : String :=
  if p.isVariadic then "...: " ++ p.type
  else if p.isOptional then p.name ++ "?: " ++ p.type
  else p.name ++ ": " ++ p.type

/-- The line that annotates a parameter. -/
def Parameter.line (p : Parameter) : String :=
  if p.isOptional then "---@param " ++ p.name ++ "? " ++ p.type
  else if p.isVariadic then "---@param ... " ++ p.type
  else "---@param " ++ p.name ++ " " ++ p.type

def callList (ps : List Parameter) : String :=
  ", ".intercalate (ps.map Parameter.call)

def typedList (ps : List Parameter) : String :=
  ", ".intercalate (ps.map Parameter.typed)

/-- The line that declares a generic parameter. -/
def GenericParameter.line (p : GenericParameter) : String :=
  match p.constraint with
  | some c => "---@generic " ++ p.name ++ " : " ++ c
  | none => "---@generic " ++ p.name

/-! ## §2. Function types -/

/-- What follows the parameters: the return type, unless nothing is returned. -/
def returns (returnType : String) : String :=
  if returnType = Lua.void then "" else ": " ++ returnType

def functionType (ps : List Parameter) (returnType : String) : String :=
  "fun(" ++ typedList ps ++ ")" ++ returns returnType

/-- The line of an overload; an instance method takes itself first. -/
def Overload.line (o : Overload) : String :=
  let self := if o.isInstance then ["self: self"] else []
  let params := typedList o.parameters
  let items := if params = "" then self else self ++ [params]
  "---@overload fun(" ++ ", ".intercalate items ++ ")" ++ returns o.returnType

end EmmyStubs.Stub
