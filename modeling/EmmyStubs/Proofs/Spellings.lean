import EmmyStubs.Dump.Reference

/-! # Spelled references

    What a reference of a dump may be about, and how it is spelled there.

    * **`Reference`**: a named type, an array, what is passed by reference, or a generic type with
      one argument or more.
    * **`Reference.print`**: the text of a reference.  Each argument is plain, or between brackets,
      where an assembly may be named behind it.
    * **`Reference.parts`**: what a reference is made of; **`Reference.Contains`** goes on to the
      parts of the parts.
-/

namespace EmmyStubs.Dump

open EmmyStubs.Text

/-! ## §1. Names -/

/-- A character of a name, which no other part of a reference is spelled with. -/
def isPlain (c : Char) : Bool :=
  "[],&+.*".toList.all (· != c) && !isBlank c

/-- A name between points or plus signs. -/
structure Segment where
  text : List Char
  ne : text ≠ []
  plain : text.all isPlain = true

/-- Names joined by points. -/
def dotted (names : List (List Char)) : List Char :=
  ['.'].intercalate names

/-- The name of a type: in a namespace, or nested in another type. -/
inductive Name where
  | top (space : List Segment) (own : Segment)
  | nested (outer : Name) (own : Segment)

namespace Name

def own : Name → Segment
  | top _ own => own
  | nested _ own => own

/-- The namespace of the outermost type. -/
def space : Name → List Segment
  | top space _ => space
  | nested outer _ => outer.space

/-- The name of the type around a nested one. -/
def outer? : Name → Option Name
  | top _ _ => none
  | nested outer _ => some outer

def print : Name → List Char
  | top space own => dotted (space.map (·.text) ++ [own.text])
  | nested outer own => outer.print ++ '+' :: own.text

def identity (n : Name) : Identity :=
  String.ofList n.print

/-- The namespace as a text, where there is one. -/
def space? (n : Name) : Option String :=
  if n.space = [] then none else some (String.ofList (dotted (n.space.map (·.text))))

/-- A name with a backtick in front of the number of its parameters. -/
def IsGeneric (n : Name) : Prop :=
  '\x60' ∈ n.print

instance (n : Name) : Decidable n.IsGeneric :=
  inferInstanceAs (Decidable ('\x60' ∈ n.print))

end Name

/-! ## §2. References -/

/-- What stands between the brackets of an array. -/
structure Rank where
  text : List Char
  isRank : isRank text = true

/-- How an argument is written: as it is, between brackets, or there with what qualifies it. -/
inductive Style where
  | plain
  | bracketed
  | qualified (qualifier : List Char) (hopen : '[' ∉ qualifier) (hclose : ']' ∉ qualifier)

def Style.print (argument : List Char) : Style → List Char
  | plain => argument
  | bracketed => '[' :: (argument ++ [']'])
  | qualified qualifier _ _ => '[' :: (argument ++ ',' :: (qualifier ++ [']']))

mutual

inductive Reference where
  | named (name : Name)
  | array (element : Reference) (rank : Rank)
  | byRef (element : Reference)
  | instantiation (definition : Name) (h : definition.IsGeneric) (arguments : Arguments)

/-- The arguments of a generic type, one at least. -/
inductive Arguments where
  | last (style : Style) (argument : Reference)
  | next (style : Style) (argument : Reference) (rest : Arguments)

end

def Arguments.toList : Arguments → List Reference
  | .last _ argument => [argument]
  | .next _ argument rest => argument :: rest.toList

mutual

def Reference.print : Reference → List Char
  | .named name => name.print
  | .array element rank => element.print ++ '[' :: (rank.text ++ [']'])
  | .byRef element => element.print ++ ['&']
  | .instantiation definition _ arguments =>
    definition.print ++ '[' :: (arguments.print ++ [']'])

def Arguments.print : Arguments → List Char
  | .last style argument => style.print argument.print
  | .next style argument rest => style.print argument.print ++ ',' :: rest.print

end

namespace Reference

def identity (t : Reference) : Identity :=
  String.ofList t.print

theorem identity_named (n : Name) : (named n).identity = n.identity := rfl

/-- The element of an array or of what is passed by reference, the type around a nested one, and
    the generic type of an instantiation. -/
def frame : Reference → List Reference
  | named name => name.outer?.toList.map named
  | array element _ => [element]
  | byRef element => [element]
  | instantiation definition _ _ => definition.outer?.toList.map named ++ [named definition]

/-- The arguments of an instantiation. -/
def arguments : Reference → List Reference
  | instantiation _ _ arguments => arguments.toList
  | _ => []

/-- What a reference is made of. -/
def parts (t : Reference) : List Reference :=
  t.frame ++ t.arguments

/-- The second reference is the first one, a part of it, a part of such a part, and so on. -/
inductive Contains : Reference → Reference → Prop
  | refl (t : Reference) : Contains t t
  | part {t u v : Reference} (hu : u ∈ t.parts) (hv : Contains u v) : Contains t v

/-- Contained without going through a reference to a type that is described. -/
inductive Reaches (described : List Identity) : Reference → Reference → Prop
  | refl (t : Reference) : Reaches described t t
  | part {t u v : Reference} (ht : t.identity ∉ described) (hu : u ∈ t.parts)
      (hv : Reaches described u v) : Reaches described t v

end Reference

end EmmyStubs.Dump
