import EmmyStubs.Proofs.Linewise
import EmmyStubs.Stub.Printer

/-! # Annotation lines

    What can be told of the lines of a declaration without knowing its names and types.

    * **`Starts`**: every kind of line has a front of its own, and by it is found (`marked_eq`).
    * **`Signed`**: of the lines of a function, those with one mark tell its overloads, those with
      another one its parameters, and so on (`signed_annotationLines`).
    * **`unbroken_annotationLines`**: a line has no line break in it if no text has that it is made
      of.
-/

namespace EmmyStubs.Stub

open EmmyStubs.Text

/-! ## §1. Fronts of lines -/

/-- The second text begins with the first. -/
def Starts (front s : String) : Prop :=
  front.toList <+: s.toList

instance (front s : String) : Decidable (Starts front s) :=
  inferInstanceAs (Decidable (front.toList <+: s.toList))

variable {front mark l : String} {ls : List String}

theorem starts_append (front rest : String) : Starts front (front ++ rest) := by
  rw [Starts, String.toList_append]
  exact List.prefix_append ..

theorem Starts.trans (hmark : Starts mark front) (h : Starts front l) : Starts mark l :=
  List.IsPrefix.trans hmark h

/-- A front that says something else than a mark tells it from the mark. -/
theorem Starts.not_starts (h : Starts front l) (hmark : ¬Starts mark front)
    (hmark' : ¬Starts front mark) : ¬Starts mark l := fun hl =>
  (List.prefix_or_prefix_of_prefix hl h).elim hmark hmark'

/-- The lines that begin with a mark. -/
def marked (mark : String) (ls : List String) : List String :=
  ls.filter fun l => Starts mark l

@[simp] theorem marked_append (mark : String) (ls ls' : List String) :
    marked mark (ls ++ ls') = marked mark ls ++ marked mark ls' :=
  List.filter_append ..

/-- Lines with one front begin with a mark all or none, if the front goes at least as far as to tell
    which. -/
theorem marked_eq (h : ∀ l ∈ ls, Starts front l) (hmark : Starts front mark → Starts mark front) :
    marked mark ls = if Starts mark front then ls else [] := by
  split
  · next hall => exact List.filter_eq_self.2 fun l hl => decide_eq_true (hall.trans (h l hl))
  · next hnone =>
    exact List.filter_eq_nil_iff.2 fun l hl => by
      simpa using (h l hl).not_starts hnone fun hfront => hnone (hmark hfront)

/-! ## §2. Fronts of annotations -/

theorem starts_field (f : Field) : Starts "---@field " f.line := by
  unfold Field.line
  split <;> simp only [String.append_assoc, starts_append]

theorem starts_operator (o : Operator) : Starts "---@operator " o.line := by
  unfold Operator.line
  split <;> simp only [String.append_assoc, starts_append]

theorem starts_overload (o : Overload) : Starts "---@overload " o.line := by
  unfold Overload.line
  simp only [String.append_assoc]
  exact Starts.trans (by decide) (starts_append "---@overload fun(" _)

theorem starts_generic (p : GenericParameter) : Starts "---@generic " p.line := by
  unfold GenericParameter.line
  split <;> simp only [String.append_assoc, starts_append]

theorem starts_parameter (p : Parameter) : Starts "---@param " p.line := by
  unfold Parameter.line
  split
  · simp only [String.append_assoc, starts_append]
  · split
    · exact Starts.trans (by decide) (starts_append "---@param ... " _)
    · simp only [String.append_assoc, starts_append]

theorem starts_return {returnType : String} (h : l ∈ returnLines returnType) :
    Starts "---@return " l := by
  unfold returnLines at h
  split at h
  · cases h
  · rw [List.mem_singleton] at h
    exact h ▸ starts_append ..

/-- The lines of a restricted access and of asynchrony. -/
def modifiers : List String :=
  ["---@private", "---@protected", "---@package", "---@async"]

theorem mem_modifiers {a : Access} {isAsync : Bool}
    (h : l ∈ accessLines a ++ asyncLines isAsync) : l ∈ modifiers := by
  unfold accessLines asyncLines at h
  cases a <;> cases isAsync <;> simp [Access.isRestricted, Access.name] at h <;>
    grind [modifiers]

/-! ## §3. Annotations of a function -/

/-- What is annotated at a function, the lines about its result last. -/
def annotationLines (a : Access) (isAsync : Bool) (os : List Overload) (gs : List GenericParameter)
    (ps : List Parameter) (returns : List String) : List String :=
  accessLines a ++ asyncLines isAsync ++ os.map Overload.line ++ gs.map GenericParameter.line
    ++ ps.map Parameter.line ++ returns

/-- Of the lines of a function, those about its overloads, its parameters and its result. -/
structure Signed (ls : List String) (os : List Overload) (gs : List GenericParameter)
    (ps : List Parameter) (returns : List String) : Prop where
  overloads : marked "---@overload" ls = os.map Overload.line
  generics : marked "---@generic" ls = gs.map GenericParameter.line
  parameters : marked "---@param" ls = ps.map Parameter.line
  returns : marked "---@return" ls = returns

section

variable {a : Access} {isAsync : Bool} {os : List Overload} {gs : List GenericParameter}
  {ps : List Parameter} {returns : List String} {statement : String}

/-- What holds of each kind of annotation holds of all that is annotated. -/
theorem forall_annotationLines {P : String → Prop} (hmodifiers : ∀ l ∈ modifiers, P l)
    (hos : ∀ o ∈ os, P o.line) (hgs : ∀ p ∈ gs, P p.line) (hps : ∀ p ∈ ps, P p.line)
    (hreturns : ∀ l ∈ returns, P l) : ∀ l ∈ annotationLines a isAsync os gs ps returns, P l := by
  intro l hl
  rw [annotationLines, List.mem_append, List.mem_append, List.mem_append, List.mem_append] at hl
  rcases hl with (((hl | hl) | hl) | hl) | hl
  · exact hmodifiers l (mem_modifiers hl)
  · exact List.forall_mem_map.2 hos l hl
  · exact List.forall_mem_map.2 hgs l hl
  · exact List.forall_mem_map.2 hps l hl
  · exact hreturns l hl

/-- The lines with a mark are those whose front has it. -/
theorem marked_annotationLines (hreturns : ∀ l ∈ returns, Starts "---@return " l)
    (hstatement : Starts "function " statement)
    (hmodifiers : ∀ l ∈ modifiers, ¬Starts mark l)
    (hmark : ∀ front ∈ ["---@overload ", "---@generic ", "---@param ", "---@return ", "function "],
      Starts front mark → Starts mark front) :
    marked mark (annotationLines a isAsync os gs ps returns ++ [statement])
      = (if Starts mark "---@overload " then os.map Overload.line else [])
        ++ (if Starts mark "---@generic " then gs.map GenericParameter.line else [])
        ++ (if Starts mark "---@param " then ps.map Parameter.line else [])
        ++ (if Starts mark "---@return " then returns else [])
        ++ (if Starts mark "function " then [statement] else []) := by
  have hnone : marked mark (accessLines a ++ asyncLines isAsync) = [] :=
    List.filter_eq_nil_iff.2 fun l hl => by simpa using hmodifiers l (mem_modifiers hl)
  have hos : ∀ l ∈ os.map Overload.line, Starts "---@overload " l :=
    List.forall_mem_map.2 fun o _ => starts_overload o
  have hgs : ∀ l ∈ gs.map GenericParameter.line, Starts "---@generic " l :=
    List.forall_mem_map.2 fun p _ => starts_generic p
  have hps : ∀ l ∈ ps.map Parameter.line, Starts "---@param " l :=
    List.forall_mem_map.2 fun p _ => starts_parameter p
  have hlast : ∀ l ∈ [statement], Starts "function " l := by simpa using hstatement
  rw [annotationLines, marked_append, marked_append, marked_append, marked_append, marked_append,
    hnone, List.nil_append, marked_eq hos (hmark _ (by simp)), marked_eq hgs (hmark _ (by simp)),
    marked_eq hps (hmark _ (by simp)), marked_eq hreturns (hmark _ (by simp)),
    marked_eq hlast (hmark _ (by simp))]

theorem signed_annotationLines (hreturns : ∀ l ∈ returns, Starts "---@return " l)
    (hstatement : Starts "function " statement) :
    Signed (annotationLines a isAsync os gs ps returns ++ [statement]) os gs ps returns := by
  constructor
  · rw [marked_annotationLines hreturns hstatement (by decide) (by decide), if_pos (by decide),
      if_neg (by decide), if_neg (by decide), if_neg (by decide), if_neg (by decide)]
    simp
  · rw [marked_annotationLines hreturns hstatement (by decide) (by decide), if_neg (by decide),
      if_pos (by decide), if_neg (by decide), if_neg (by decide), if_neg (by decide)]
    simp
  · rw [marked_annotationLines hreturns hstatement (by decide) (by decide), if_neg (by decide),
      if_neg (by decide), if_pos (by decide), if_neg (by decide), if_neg (by decide)]
    simp
  · rw [marked_annotationLines hreturns hstatement (by decide) (by decide), if_neg (by decide),
      if_neg (by decide), if_neg (by decide), if_pos (by decide), if_neg (by decide)]
    simp

end

/-! ## §4. Texts without line breaks -/

def Field.strings (f : Field) : List String :=
  [f.name, f.type]

def Operator.strings (o : Operator) : List String :=
  [o.name, o.resultType, o.operandType]

def Parameter.strings (p : Parameter) : List String :=
  [p.name, p.type]

def GenericParameter.strings (p : GenericParameter) : List String :=
  p.name :: p.constraint.toList

def Overload.strings (o : Overload) : List String :=
  o.returnType :: o.parameters.flatMap Parameter.strings

section

variable {p : Parameter} {ps : List Parameter} {os : List Overload} {gs : List GenericParameter}

theorem unbroken_field {f : Field} (h : ∀ s ∈ f.strings, Unbroken s) : Unbroken f.line := by
  have haccess : Unbroken f.access.name := by cases f.access <;> decide
  have hname : Unbroken f.name := h _ (by simp [Field.strings])
  have htype : Unbroken f.type := h _ (by simp [Field.strings])
  unfold Field.line
  split <;> simp only [unbroken_append, haccess, hname, htype, and_true] <;> decide

theorem unbroken_operator {o : Operator} (h : ∀ s ∈ o.strings, Unbroken s) : Unbroken o.line := by
  have hname : Unbroken o.name := h _ (by simp [Operator.strings])
  have hresult : Unbroken o.resultType := h _ (by simp [Operator.strings])
  have hoperand : Unbroken o.operandType := h _ (by simp [Operator.strings])
  unfold Operator.line
  split <;> simp only [unbroken_append, hname, hresult, hoperand, and_true] <;> decide

theorem unbroken_parameter (h : ∀ s ∈ p.strings, Unbroken s) :
    Unbroken p.line ∧ Unbroken p.call ∧ Unbroken p.typed := by
  have hname : Unbroken p.name := h _ (by simp [Parameter.strings])
  have htype : Unbroken p.type := h _ (by simp [Parameter.strings])
  unfold Parameter.line Parameter.call Parameter.typed
  cases p.isOptional <;> cases p.isVariadic <;>
    simp only [unbroken_append, hname, htype, and_true, if_true, Bool.false_eq_true, if_false] <;>
    decide

theorem unbroken_generic {p : GenericParameter} (h : ∀ s ∈ p.strings, Unbroken s) :
    Unbroken p.line := by
  have hname : Unbroken p.name := h _ (by simp [GenericParameter.strings])
  unfold GenericParameter.line
  split
  · next c hc =>
    have hconstraint : Unbroken c := h _ (by simp [GenericParameter.strings, hc])
    simp only [unbroken_append, hname, hconstraint, and_true]
    decide
  · simp only [unbroken_append, hname, and_true]
    decide

theorem unbroken_callList (h : ∀ s ∈ ps.flatMap Parameter.strings, Unbroken s) :
    Unbroken (callList ps) :=
  unbroken_intercalate (by decide) (List.forall_mem_map.2 fun p hp =>
    (unbroken_parameter (List.forall_mem_flatMap.1 h p hp)).2.1)

theorem unbroken_typedList (h : ∀ s ∈ ps.flatMap Parameter.strings, Unbroken s) :
    Unbroken (typedList ps) :=
  unbroken_intercalate (by decide) (List.forall_mem_map.2 fun p hp =>
    (unbroken_parameter (List.forall_mem_flatMap.1 h p hp)).2.2)

theorem unbroken_overload {o : Overload} (h : ∀ s ∈ o.strings, Unbroken s) : Unbroken o.line := by
  have hreturn : Unbroken o.returnType := h _ (by simp [Overload.strings])
  have hreturns : Unbroken (returns o.returnType) := by
    unfold returns
    split
    · decide
    · simp only [unbroken_append, hreturn, and_true]
      decide
  have hparams : Unbroken (typedList o.parameters) :=
    unbroken_typedList (List.forall_mem_cons.1 h).2
  unfold Overload.line
  simp only [unbroken_append, hreturns, and_true]
  refine ⟨⟨by decide, unbroken_intercalate (by decide) ?_⟩, by decide⟩
  intro s hs
  have hself : ∀ s ∈ (if o.isInstance then ["self: self"] else []), Unbroken s := by
    cases o.isInstance <;> decide
  split at hs
  · exact hself s hs
  · rcases List.mem_append.1 hs with hs | hs
    · exact hself s hs
    · exact List.mem_singleton.1 hs ▸ hparams

theorem unbroken_annotationLines {a : Access} {isAsync : Bool} {returns : List String}
    (hos : ∀ s ∈ os.flatMap Overload.strings, Unbroken s)
    (hgs : ∀ s ∈ gs.flatMap GenericParameter.strings, Unbroken s)
    (hps : ∀ s ∈ ps.flatMap Parameter.strings, Unbroken s)
    (hreturns : ∀ l ∈ returns, Unbroken l) :
    ∀ l ∈ annotationLines a isAsync os gs ps returns, Unbroken l := by
  rw [List.forall_mem_flatMap] at hos hgs hps
  exact forall_annotationLines (by decide) (fun o ho => unbroken_overload (hos o ho))
    (fun p hp => unbroken_generic (hgs p hp)) (fun p hp => (unbroken_parameter (hps p hp)).1)
    hreturns

end

end EmmyStubs.Stub
