import EmmyStubs.Graph.Shape

/-! # Options

    How sequences that can be iterated are written, which further generic types are written as
    lists and tables, and whether inherited members are repeated in every class. -/

namespace EmmyStubs

/-- How a sequence is written: as the function that iterates it, or as a table. -/
inductive EnumerableStyle where
  | function
  | table
  deriving DecidableEq, Repr

namespace EnumerableStyle

def name : EnumerableStyle → String
  | .function => "function"
  | .table => "table"

def all : List EnumerableStyle :=
  [.function, .table]

/-- The style that a word names. -/
def ofName? (word : String) : Option EnumerableStyle :=
  all.find? (·.name == word)

theorem ofName?_eq_some_iff {word : String} {style : EnumerableStyle} :
    ofName? word = some style ↔ style.name = word := by
  constructor
  · intro h
    simpa using List.find?_some h
  · rintro rfl
    cases style <;> rfl

/-- What is said of a word that names no style. -/
def unknownMessage (word : String) : String :=
  "Unknown enumerable style: " ++ word

end EnumerableStyle

/-- A word in place of a style that names none. -/
structure UnknownStyle where
  word : String
  deriving DecidableEq, Repr

def UnknownStyle.message (e : UnknownStyle) : String :=
  EnumerableStyle.unknownMessage e.word

structure Options where
  style : EnumerableStyle := .function
  listShapes : List Identity := []
  dictionaryShapes : List Identity := []
  flatten : Bool := false
  deriving Repr

namespace Options

/-- The options that map types in a style that is given by its name. -/
def named (style : String) (listShapes dictionaryShapes : List Identity) (flatten : Bool) :
    Except UnknownStyle Options :=
  match EnumerableStyle.ofName? style with
  | some style => return { style, listShapes, dictionaryShapes, flatten }
  | none => throw ⟨style⟩

/-- Whether a type is an instantiation written as a list. -/
def isList (o : Options) (d : Descriptor) : Bool :=
  Shape.isOneOf (Shape.lists ++ o.listShapes) d

/-- Whether a type is an instantiation written as a table. -/
def isDictionary (o : Options) (d : Descriptor) : Bool :=
  Shape.isOneOf (Shape.dictionaries ++ o.dictionaryShapes) d

end Options

end EmmyStubs
