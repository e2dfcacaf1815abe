import EmmyStubs.Text.Cut

/-! # Member names

    An explicitly implemented member carries the name of its interface in front of its own.
    A name that is no identifier of the target language is put between brackets. -/

namespace EmmyStubs.Members

open EmmyStubs.Text

/-- The name behind the last point, unless that point is the first character. -/
def simpleName (name : String) : String :=
  if beforeLast '.' name.toList = [] then name else String.ofList (afterLast '.' name.toList)

/-- The name as a table key: between brackets and quotes when it holds a point or an angle. -/
def keyName (name : String) : String :=
  if name.toList.any fun c => c == '<' || c == '.' || c == '>' then "[\"" ++ name ++ "\"]"
  else name

/-- The first occurrence of every text, in order. -/
def unique (items : List String) : List String :=
  items.foldl (fun seen item => if item ∈ seen then seen else seen ++ [item]) []

end EmmyStubs.Members
