import Mathlib.Data.List.Forall2
import EmmyStubs.Stub.Printer

/-! # Parameters in three forms

    A parameter is written as the line that annotates it, as it stands in the head of a function,
    and as it stands in a function type.

    * **`Shown`**: what a form can show of a parameter: a name or dots, a mark if it may be left
      out, and a type.
    * **`Parameter.Shows`**: the three forms show the same.  They do for every parameter, except one
      that is marked both optional and variadic: its line goes by the first mark, the other two
      forms by the second (`Parameter.not_both_of_shows`).
    * **`signature_agrees_iff`**: so without such a parameter, and only then, the annotations of a
      method fit its stub, and a signature reads the same as a method and as an overload.
-/

namespace EmmyStubs.Stub

/-! ## §1. Single parameters -/

/-- What is shown of a parameter: its name, or dots, whether it may be left out, and its type. -/
structure Shown where
  name : String
  mark : Bool
  type : String

namespace Shown

/-- The name with the mark behind it. -/
def label (s : Shown) : String :=
  s.name ++ if s.mark then "?" else ""

def line (s : Shown) : String :=
  "---@param " ++ s.label ++ " " ++ s.type

def item (s : Shown) : String :=
  s.label ++ ": " ++ s.type

end Shown

namespace Parameter

/-- All forms of a parameter show the same. -/
structure Shows (p : Parameter) (s : Shown) : Prop where
  line : p.line = s.line
  call : p.call = s.name
  typed : p.typed = s.item

variable {p : Parameter}

/-- With one mark at most, every form goes by it. -/
theorem shows_of_not_both (h : ¬(p.isOptional = true ∧ p.isVariadic = true)) :
    p.Shows ⟨p.call, p.isOptional, p.type⟩ := by
  cases hvariadic : p.isVariadic with
  | true =>
    have hoptional : p.isOptional = false := Bool.eq_false_iff.2 fun ho => h ⟨ho, hvariadic⟩
    constructor <;> simp [line, call, typed, Shown.line, Shown.item, Shown.label, hoptional,
      hvariadic]
  | false =>
    cases hoptional : p.isOptional with
    | true =>
      constructor <;> simp [line, call, typed, Shown.line, Shown.item, Shown.label, hoptional,
        hvariadic, String.append_assoc]
    | false =>
      constructor <;> simp [line, call, typed, Shown.line, Shown.item, Shown.label, hoptional,
        hvariadic]

/-- With both marks the function type has dots without a mark, and the line a name with one. -/
theorem not_both_of_shows {s : Shown} (h : p.Shows s) :
    ¬(p.isOptional = true ∧ p.isVariadic = true) := by
  rintro ⟨hoptional, hvariadic⟩
  obtain ⟨hline, hcall, htyped⟩ := h
  rw [call, if_pos hvariadic] at hcall
  rw [line, if_pos hoptional, Shown.line, Shown.label, ← hcall] at hline
  rw [typed, if_pos hvariadic, Shown.item, Shown.label, ← hcall] at htyped
  have htyped := congrArg String.toList htyped
  cases hmark : s.mark with
  | true => simp [hmark] at htyped
  | false =>
    have htype : p.type.toList = s.type.toList := by simpa [hmark] using htyped
    -- Behind the type, read from the back, a mark stands where there are dots.
    have hline := congrArg (fun text => text.toList.reverse) hline
    simp [hmark, htype] at hline

end Parameter

/-! ## §2. Signatures -/

/-- What is shown of a signature: its parameters, and what it returns, if anything. -/
structure Signature where
  parameters : List Shown
  returnType : Option String

namespace Signature

/-- The lines that annotate it. -/
def lines (s : Signature) : List String :=
  s.parameters.map Shown.line ++ (s.returnType.map ("---@return " ++ ·)).toList

/-- What stands between the brackets of a call. -/
def call (s : Signature) : String :=
  ", ".intercalate (s.parameters.map Shown.name)

/-- The function type, with what stands in front of the parameters. -/
def typed (s : Signature) (front : List String) : String :=
  "fun(" ++ ", ".intercalate (front ++ s.parameters.map Shown.item) ++ ")"
    ++ (s.returnType.map (": " ++ ·)).getD ""

/-- Every declaration with these parameters and this return type shows the signature: the
    annotations and the stub of a method, those of a constructor, which returns its class, and the
    function types of delegates and overloads. -/
structure Declared (s : Signature) (ps : List Parameter) (returnType : String) : Prop where
  parameters : List.Forall₂ Parameter.Shows ps s.parameters
  group : ∀ m : MethodGroup, m.parameters = ps → m.returnType = returnType →
    (Method.group m).lines = accessLines m.access ++ asyncLines m.isAsync
      ++ m.overloads.map Overload.line ++ s.lines
      ++ ["function " ++ Lua.rootTable ++ "." ++ m.className ++ (if m.isInstance then ":" else ".")
        ++ m.name ++ "(" ++ s.call ++ ") end"]
  generic : ∀ m : GenericMethod, m.parameters = ps → m.returnType = returnType →
    (Method.generic m).lines = accessLines m.access ++ asyncLines m.isAsync
      ++ m.genericParameters.map GenericParameter.line ++ s.lines
      ++ ["function " ++ Lua.rootTable ++ "." ++ m.className ++ (if m.isInstance then ":" else ".")
        ++ m.name ++ "(" ++ s.call ++ ") end"]
  constructor : ∀ c : Constructor, c.parameters = ps →
    c.lines = accessLines c.access ++ c.overloads.map Overload.line
      ++ { s with returnType := some c.className }.lines
      ++ ["function " ++ Lua.rootTable ++ "." ++ c.className ++ "(" ++ s.call ++ ") end"]
  functionType : functionType ps returnType = s.typed []
  overload : ∀ o : Overload, o.parameters = ps → o.returnType = returnType →
    o.line = "---@overload " ++ s.typed (if o.isInstance then ["self: self"] else [])

end Signature

variable {ps : List Parameter} {shown : List Shown} {returnType : String}

/-- The signature of some parameters, where nothing is returned but for a text. -/
def signatureOf (shown : List Shown) (returnType : String) : Signature :=
  ⟨shown, if returnType = Lua.void then none else some returnType⟩

theorem lines_signatureOf :
    (signatureOf shown returnType).lines = shown.map Shown.line ++ returnLines returnType := by
  unfold signatureOf Signature.lines returnLines
  split <;> rfl

theorem typed_signatureOf {front : List String} : (signatureOf shown returnType).typed front
    = "fun(" ++ ", ".intercalate (front ++ shown.map Shown.item) ++ ")" ++ returns returnType := by
  unfold signatureOf Signature.typed returns
  split <;> rfl

theorem map_eq_of_forall₂ {α β γ : Type} {f : α → γ} {f' : β → γ} {l : List α} {l' : List β}
    (h : List.Forall₂ (fun a b => f a = f' b) l l') : l.map f = l'.map f' := by
  rwa [← List.forall₂_eq_eq_eq, List.forall₂_map_left_iff, List.forall₂_map_right_iff]

theorem Parameter.typed_ne_empty (p : Parameter) : p.typed ≠ "" := by
  unfold Parameter.typed
  split
  · simp
  · split <;> simp

/-- Only no parameters leave nothing between the brackets. -/
theorem typedList_eq_empty : typedList ps = "" ↔ ps = [] := by
  constructor
  · intro h
    cases ps with
    | nil => rfl
    | cons p ps =>
      refine absurd ?_ p.typed_ne_empty
      cases ps with
      | nil => simpa [typedList] using h
      | cons q ps =>
        rw [typedList, List.map_cons, List.map_cons, String.intercalate_cons_cons,
          String.append_eq_empty_iff, String.append_eq_empty_iff] at h
        exact h.1.1
  · rintro rfl
    rfl

/-- A joined list is one item of a longer one like any other, unless it is empty. -/
theorem intercalate_joined {sep : String} {front items : List String} (h : items ≠ []) :
    sep.intercalate (front ++ [sep.intercalate items]) = sep.intercalate (front ++ items) := by
  cases front with
  | nil => exact String.intercalate_singleton
  | cons t front =>
    rw [String.intercalate_append_of_ne_nil (List.cons_ne_nil t front) (List.cons_ne_nil _ _),
      String.intercalate_append_of_ne_nil (List.cons_ne_nil t front) h,
      String.intercalate_singleton]

theorem Overload.line_eq (o : Overload) : o.line = "---@overload fun("
    ++ ", ".intercalate
      ((if o.isInstance then ["self: self"] else []) ++ o.parameters.map Parameter.typed)
    ++ ")" ++ returns o.returnType := by
  unfold Overload.line
  dsimp only
  split
  · next hempty =>
    rw [typedList_eq_empty.1 hempty, List.map_nil, List.append_nil]
  · next hparameters =>
    have hne : o.parameters.map Parameter.typed ≠ [] := fun hnil =>
      hparameters (typedList_eq_empty.2 (List.map_eq_nil_iff.1 hnil))
    rw [typedList, intercalate_joined hne]

/-- Where each parameter is shown the same in all forms, so is the whole signature. -/
theorem declared_signatureOf (h : List.Forall₂ Parameter.Shows ps shown) :
    (signatureOf shown returnType).Declared ps returnType := by
  have hlines := map_eq_of_forall₂ (h.imp fun _ _ hp => hp.line)
  have htyped := map_eq_of_forall₂ (h.imp fun _ _ hp => hp.typed)
  have hcall : (signatureOf shown returnType).call = callList ps := by
    rw [Signature.call, callList, map_eq_of_forall₂ (h.imp fun _ _ hp => hp.call)]
    rfl
  constructor
  case parameters => exact h
  case group =>
    rintro m rfl rfl
    rw [lines_signatureOf, hcall, ← hlines, ← List.append_assoc]
    rfl
  case generic =>
    rintro m rfl rfl
    rw [lines_signatureOf, hcall, ← hlines, ← List.append_assoc]
    rfl
  case constructor =>
    rintro c rfl
    rw [hcall, Constructor.lines, hlines]
    simp [Signature.lines, signatureOf]
  case functionType =>
    rw [typed_signatureOf, List.nil_append, ← htyped]
    rfl
  case overload =>
    rintro o rfl rfl
    rw [typed_signatureOf, ← htyped, o.line_eq]
    simp only [← String.append_assoc]
    rfl

/-! ## §3. Lists of parameters -/

theorem exists_forall₂_shows_iff : (∃ shown, List.Forall₂ Parameter.Shows ps shown) ↔
    ∀ p ∈ ps, ¬(p.isOptional = true ∧ p.isVariadic = true) := by
  constructor
  · rintro ⟨shown, h⟩
    induction h with
    | nil => simp
    | cons hp _ ih => exact List.forall_mem_cons.2 ⟨Parameter.not_both_of_shows hp, ih⟩
  · intro h
    refine ⟨ps.map fun p => ⟨p.call, p.isOptional, p.type⟩, ?_⟩
    rw [List.forall₂_map_right_iff, List.forall₂_same]
    exact fun p hp => Parameter.shows_of_not_both (h p hp)

/-- The forms of a signature agree, parameter by parameter and in every declaration that is written
    with them, exactly if no parameter is both optional and variadic. -/
theorem signature_agrees_iff (ps : List Parameter) (returnType : String) :
    (∃ s : Signature, s.Declared ps returnType) ↔
      ∀ p ∈ ps, ¬(p.isOptional = true ∧ p.isVariadic = true) := by
  rw [← exists_forall₂_shows_iff]
  constructor
  · rintro ⟨s, h⟩
    exact ⟨s.parameters, h.parameters⟩
  · rintro ⟨shown, h⟩
    exact ⟨_, declared_signatureOf h⟩

/-- A parameter with both marks: its line names a parameter that the stub does not have. -/
theorem restParameter_disagrees :
    let p : Parameter := ⟨"rest", "integer", true, true⟩
    p.line = "---@param rest? integer" ∧ p.call = "..." ∧ p.typed = "...: integer" ∧
      ¬∃ s : Signature, s.Declared [p] "" := by
  refine ⟨by decide, by decide, by decide, ?_⟩
  rintro ⟨s, h⟩
  exact exists_forall₂_shows_iff.1 ⟨s.parameters, h.parameters⟩ _ List.mem_cons_self ⟨rfl, rfl⟩

end EmmyStubs.Stub
