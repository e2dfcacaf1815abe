import Mathlib.Data.List.Forall2
import EmmyStubs.Proofs.Annotations

/-! # Blocks of a class

    The text of a class is read as a reader of the file does: line by line, with empty lines
    between its blocks.

    * **`Block`**: some annotations, and the statement below them.
    * **`statementsOf`**: the statements of some lines, each with the annotations that belong to
      it.
    * **`Method.ShownBy`**, **`Constructor.ShownBy`**: a block tells all of a method or a
      constructor.
    * **`classText_blocks`**: a class is its header, its methods and its constructor, each in a
      block of its own, and no annotation belongs to another block's statement.
-/

namespace EmmyStubs.Stub

open EmmyStubs.Text

/-! ## §1. Blocks -/

/-- Some lines that annotate a statement, and the statement. -/
structure Block where
  annotations : List String
  statement : String

namespace Block

def lines (b : Block) : List String :=
  b.annotations ++ [b.statement]

/-- The statement is the only line of a block that is no annotation. -/
structure SelfContained (b : Block) : Prop where
  annotations : ∀ l ∈ b.annotations, Starts "---@" l
  statement : ¬Starts "---@" b.statement
  nonempty : b.statement ≠ ""

theorem SelfContained.ne_empty {b : Block} (h : b.SelfContained) : ∀ l ∈ b.lines, l ≠ "" := by
  intro l hl
  rcases List.mem_append.1 hl with hl | hl
  · rintro rfl
    exact absurd (h.annotations "" hl) (by decide)
  · exact List.mem_singleton.1 hl ▸ h.nonempty

end Block

/-- The statements of some lines, each with the annotations above it.  An empty line parts an
    annotation from the statement below, unless the reading goes `across` such lines. -/
def statementsOf (across : Bool) (above : List String) : List String → List Block
  | [] => []
  | l :: ls =>
    if l = "" then statementsOf across (if across then above else []) ls
    else if Starts "---@" l then statementsOf across (above ++ [l]) ls
    else ⟨above, l⟩ :: statementsOf across [] ls

variable {across : Bool} {b : Block} {bs : List Block} {rest : List String}

/-- A block is read as it is, and leaves no annotation behind. -/
theorem statementsOf_lines (h : b.SelfContained) :
    statementsOf across [] (b.lines ++ rest) = b :: statementsOf across [] rest := by
  obtain ⟨annotations, statement⟩ := b
  obtain ⟨hannotations, hstatement, hnonempty⟩ := h
  -- By induction on the annotations still to come, below any that have been read.
  have hread : ∀ (ls above : List String), (∀ l ∈ ls, Starts "---@" l) →
      statementsOf across above (ls ++ [statement] ++ rest)
        = ⟨above ++ ls, statement⟩ :: statementsOf across [] rest := by
    intro ls
    induction ls with
    | nil =>
      intro above _
      rw [List.nil_append, List.singleton_append, statementsOf, if_neg hnonempty,
        if_neg hstatement, List.append_nil]
    | cons l ls ih =>
      intro above hls
      obtain ⟨hl, hls⟩ := List.forall_mem_cons.1 hls
      have hne : l ≠ "" := by
        rintro rfl
        exact absurd hl (by decide)
      rw [List.cons_append, List.cons_append, statementsOf, if_neg hne, if_pos hl, ih _ hls,
        List.append_assoc, List.singleton_append]
  exact hread annotations [] hannotations

theorem statementsOf_empty : statementsOf across [] ("" :: rest) = statementsOf across [] rest := by
  simp [statementsOf]

/-- Lines with an empty line behind every block. -/
def spaced (bs : List Block) : List String :=
  bs.flatMap fun b => b.lines ++ [""]

theorem spaced_cons (b : Block) (bs : List Block) :
    spaced (b :: bs) = b.lines ++ "" :: spaced bs := by
  simp [spaced]

theorem statementsOf_spaced (h : ∀ b ∈ bs, b.SelfContained) :
    statementsOf across [] (spaced bs ++ rest) = bs ++ statementsOf across [] rest := by
  induction bs with
  | nil => rfl
  | cons b bs ih =>
    obtain ⟨hb, hbs⟩ := List.forall_mem_cons.1 h
    rw [spaced_cons, List.append_assoc, List.cons_append, statementsOf_lines hb,
      statementsOf_empty, ih hbs, List.cons_append]

theorem blocksOf_spaced (h : ∀ b ∈ bs, b.SelfContained) :
    blocksOf (spaced bs ++ rest) = bs.map Block.lines ++ blocksOf rest := by
  induction bs with
  | nil => rfl
  | cons b bs ih =>
    obtain ⟨hb, hbs⟩ := List.forall_mem_cons.1 h
    rw [spaced_cons, List.append_assoc, List.cons_append, blocksOf,
      pieces_append_cons (fun l hl => by simpa using hb.ne_empty l hl) (by rfl), List.map_cons,
      List.cons_append]
    exact congrArg (b.lines :: ·) (ih hbs)

theorem blocksOf_lines (h : b.SelfContained) : blocksOf b.lines = [b.lines] :=
  pieces_of_forall (fun l hl => by simpa using h.ne_empty l hl) (by simp [Block.lines])

/-! ## §2. Functions -/

section

variable {a : Access} {isAsync : Bool} {os : List Overload} {gs : List GenericParameter}
  {ps : List Parameter} {returns : List String} {statement : String}

/-- But for its statement, a function has annotations only. -/
theorem selfContained_annotationLines (hreturns : ∀ l ∈ returns, Starts "---@return " l)
    (hstatement : Starts "function " statement) :
    Block.SelfContained ⟨annotationLines a isAsync os gs ps returns, statement⟩ where
  annotations := forall_annotationLines (by decide)
    (fun o _ => Starts.trans (by decide) (starts_overload o))
    (fun p _ => Starts.trans (by decide) (starts_generic p))
    (fun p _ => Starts.trans (by decide) (starts_parameter p))
    (fun l hl => Starts.trans (by decide) (hreturns l hl))
  statement := hstatement.not_starts (by decide) (by decide)
  nonempty := by
    rintro rfl
    exact absurd hstatement (by decide)

end

/-! ## §3. Shown methods and constructors -/

namespace Method

def className : Method → String
  | .group m => m.className
  | .generic m => m.className

def name : Method → String
  | .group m => m.name
  | .generic m => m.name

def isInstance : Method → Bool
  | .group m => m.isInstance
  | .generic m => m.isInstance

def isAsync : Method → Bool
  | .group m => m.isAsync
  | .generic m => m.isAsync

def access : Method → Access
  | .group m => m.access
  | .generic m => m.access

def parameters : Method → List Parameter
  | .group m => m.parameters
  | .generic m => m.parameters

def returnType : Method → String
  | .group m => m.returnType
  | .generic m => m.returnType

/-- A generic method has no overloads. -/
def overloads : Method → List Overload
  | .group m => m.overloads
  | .generic _ => []

/-- Only a generic method has generic parameters. -/
def genericParameters : Method → List GenericParameter
  | .group _ => []
  | .generic m => m.genericParameters

end Method

/-- A block tells all of a method. -/
structure Method.ShownBy (m : Method) (b : Block) : Prop where
  statement : b.statement = "function CS." ++ m.className ++ (if m.isInstance then ":" else ".")
    ++ m.name ++ "(" ++ callList m.parameters ++ ") end"
  signed : Signed b.lines m.overloads m.genericParameters m.parameters
    (if m.returnType = "" then [] else ["---@return " ++ m.returnType])

/-- A block tells all of a constructor, which returns its class. -/
structure Constructor.ShownBy (c : Constructor) (b : Block) : Prop where
  statement : b.statement = "function CS." ++ c.className ++ "(" ++ callList c.parameters ++ ") end"
  signed : Signed b.lines c.overloads [] c.parameters ["---@return " ++ c.className]

/-- The front of every stub. -/
theorem stubFront : "function " ++ Lua.rootTable ++ "." = "function CS." := by decide

namespace Method

def block (m : Method) : Block where
  annotations := annotationLines m.access m.isAsync m.overloads m.genericParameters m.parameters
    (returnLines m.returnType)
  statement := methodStub m.className m.name m.isInstance m.parameters

theorem lines_eq (m : Method) : m.lines = m.block.lines := by
  cases m with
  | group m => simp [lines, Block.lines, block, annotationLines, access, isAsync, overloads,
      genericParameters, parameters, returnType, className, name, isInstance]
  | generic m => simp [lines, Block.lines, block, annotationLines, access, isAsync, overloads,
      genericParameters, parameters, returnType, className, name, isInstance]

theorem starts_stub (m : Method) : Starts "function " m.block.statement := by
  delta block methodStub
  simp only [String.append_assoc, starts_append]

theorem selfContained_block (m : Method) : m.block.SelfContained :=
  selfContained_annotationLines (fun _ => starts_return) m.starts_stub

theorem shownBy_block (m : Method) : m.ShownBy m.block where
  statement := by
    delta block methodStub
    rw [stubFront]
  signed := signed_annotationLines (fun _ => starts_return) m.starts_stub

end Method

namespace Constructor

def block (c : Constructor) : Block where
  annotations := annotationLines c.access false c.overloads [] c.parameters
    ["---@return " ++ c.className]
  statement := "function CS." ++ c.className ++ "(" ++ callList c.parameters ++ ") end"

theorem lines_eq (c : Constructor) : c.lines = c.block.lines := by
  have hasync : asyncLines false = [] := rfl
  rw [lines, stubFront, Block.lines, block, annotationLines, hasync, List.map_nil, List.append_nil,
    List.append_nil, List.append_assoc _ ["---@return " ++ c.className]]
  rfl

theorem starts_returns (c : Constructor) : ∀ l ∈ ["---@return " ++ c.className],
    Starts "---@return " l := by
  simpa using starts_append ..

theorem starts_stub (c : Constructor) : Starts "function " c.block.statement := by
  simp only [block, String.append_assoc]
  exact Starts.trans (by decide) (starts_append "function CS." _)

theorem selfContained_block (c : Constructor) : c.block.SelfContained :=
  selfContained_annotationLines c.starts_returns c.starts_stub

theorem shownBy_block (c : Constructor) : c.ShownBy c.block where
  statement := rfl
  signed := signed_annotationLines c.starts_returns c.starts_stub

end Constructor

def Method.strings (m : Method) : List String :=
  m.className :: m.name :: m.returnType :: m.overloads.flatMap Overload.strings
    ++ m.genericParameters.flatMap GenericParameter.strings
    ++ m.parameters.flatMap Parameter.strings

def Constructor.strings (c : Constructor) : List String :=
  c.className :: c.overloads.flatMap Overload.strings ++ c.parameters.flatMap Parameter.strings

/-- The texts of which a class is made. -/
def ClassDeclaration.strings (d : ClassDeclaration) : List String :=
  d.name :: d.baseTypes ++ d.fields.flatMap Field.strings ++ d.operators.flatMap Operator.strings
    ++ d.methods.flatMap Method.strings ++ d.constructor.toList.flatMap Constructor.strings

theorem Method.unbroken_block {m : Method} (h : ∀ s ∈ m.strings, Unbroken s) :
    ∀ l ∈ m.block.lines, Unbroken l := by
  simp only [Method.strings, List.forall_mem_append, List.forall_mem_cons] at h
  obtain ⟨⟨⟨hclass, hname, hreturn, hos⟩, hgs⟩, hps⟩ := h
  intro l hl
  rcases List.mem_append.1 hl with hl | hl
  · refine unbroken_annotationLines hos hgs hps (fun l hl => ?_) l hl
    unfold returnLines at hl
    split at hl
    · cases hl
    · rw [List.mem_singleton.1 hl, unbroken_append]
      exact ⟨by decide, hreturn⟩
  · rw [List.mem_singleton.1 hl, m.shownBy_block.statement]
    have hcall : Unbroken (if m.isInstance then ":" else ".") := by cases m.isInstance <;> decide
    simp only [unbroken_append, hclass, hname, hcall, unbroken_callList hps, and_true]
    decide

theorem Constructor.unbroken_block {c : Constructor} (h : ∀ s ∈ c.strings, Unbroken s) :
    ∀ l ∈ c.block.lines, Unbroken l := by
  simp only [Constructor.strings, List.forall_mem_append, List.forall_mem_cons] at h
  obtain ⟨⟨hclass, hos⟩, hps⟩ := h
  intro l hl
  rcases List.mem_append.1 hl with hl | hl
  · refine unbroken_annotationLines hos (by simp) hps (fun l hl => ?_) l hl
    rw [List.mem_singleton.1 hl, unbroken_append]
    exact ⟨by decide, hclass⟩
  · rw [List.mem_singleton.1 hl, block]
    simp only [unbroken_append, hclass, unbroken_callList hps, and_true]
    decide

/-! ## §4. Classes -/

namespace ClassDeclaration

variable {d : ClassDeclaration}

/-- The class with its fields and operators, and its table. -/
def header (d : ClassDeclaration) : Block where
  annotations := d.headLine :: d.fields.map Field.line ++ d.operators.map Operator.line
  statement := "CS." ++ d.name ++ " = \x7b\x7d"

theorem headerLines_eq (d : ClassDeclaration) : d.headerLines = d.header.lines := rfl

theorem starts_headLine (d : ClassDeclaration) : Starts "---@class " d.headLine := by
  rw [headLine, String.append_assoc]
  exact starts_append ..

theorem selfContained_header (d : ClassDeclaration) : d.header.SelfContained where
  annotations := by
    simp only [header, List.cons_append, List.mem_cons, List.mem_append, List.mem_map]
    rintro l (rfl | ⟨f, -, rfl⟩ | ⟨o, -, rfl⟩)
    · exact Starts.trans (by decide) d.starts_headLine
    · exact Starts.trans (by decide) (starts_field f)
    · exact Starts.trans (by decide) (starts_operator o)
  statement := by
    have hstart : Starts "CS." d.header.statement := by
      simp only [header, String.append_assoc, starts_append]
    exact hstart.not_starts (by decide) (by decide)
  nonempty := by
    simp [header]

theorem unbroken_header (hname : Unbroken d.name) (hbases : ∀ s ∈ d.baseTypes, Unbroken s)
    (hfields : ∀ f ∈ d.fields, ∀ s ∈ f.strings, Unbroken s)
    (hoperators : ∀ o ∈ d.operators, ∀ s ∈ o.strings, Unbroken s) :
    ∀ l ∈ d.header.lines, Unbroken l := by
  simp only [Block.lines, header, List.cons_append, List.mem_cons, List.mem_append, List.mem_map,
    List.not_mem_nil, or_false]
  rintro l (rfl | (⟨f, hf, rfl⟩ | ⟨o, ho, rfl⟩) | rfl)
  · have hlist : Unbroken (", ".intercalate d.baseTypes) := unbroken_intercalate (by decide) hbases
    unfold headLine
    split <;> simp only [unbroken_append, hname, hlist, and_true] <;> decide
  · exact unbroken_field (hfields f hf)
  · exact unbroken_operator (hoperators o ho)
  · simp only [unbroken_append, hname, and_true]
    decide

/-- The lines of a class: every block but the last has an empty line behind it, and the last one too
    unless it is a constructor. -/
def lines (d : ClassDeclaration) : List String :=
  spaced (d.header :: d.methods.map Method.block)
    ++ d.constructor.toList.flatMap fun c => c.block.lines

theorem ofLines_block (b : Block) : ofLines b.lines = "\n".intercalate b.lines ++ "\n" :=
  (intercalate_eq_ofLines (by simp [Block.lines])).symm

/-- A block and the empty line behind it. -/
theorem ofLines_spaced_cons (b : Block) (bs : List Block) :
    ofLines (spaced (b :: bs)) = "\n".intercalate b.lines ++ "\n\n" ++ ofLines (spaced bs) := by
  have hbreaks : "\n\n" = "\n" ++ "\n" := by decide
  rw [spaced_cons, ofLines_append, ofLines_cons, ofLines_block, hbreaks, String.empty_append]
  simp only [String.append_assoc]

theorem text_eq_ofLines (d : ClassDeclaration) : d.text = ofLines d.lines := by
  have hmethods : ∀ ms : List Method, String.join (ms.map fun m => m.text ++ "\n\n")
      = ofLines (spaced (ms.map Method.block)) := by
    intro ms
    induction ms with
    | nil => rfl
    | cons m ms ih =>
      rw [List.map_cons, List.map_cons, String.join_cons, ih, ofLines_spaced_cons, Method.text,
        m.lines_eq]
  rw [text, lines, ofLines_append, ofLines_spaced_cons, hmethods, headerLines_eq]
  cases d.constructor with
  | none => simp
  | some c =>
    rw [Option.toList_some, List.flatMap_singleton, ofLines_block, ← c.lines_eq]
    rfl

theorem unbroken_lines (h : ∀ s ∈ d.strings, Unbroken s) : ∀ l ∈ d.lines, Unbroken l := by
  simp only [strings, List.forall_mem_append, List.forall_mem_cons,
    List.forall_mem_flatMap] at h
  obtain ⟨⟨⟨⟨⟨hname, hbases⟩, hfields⟩, hoperators⟩, hmethods⟩, hconstructor⟩ := h
  have hheader := unbroken_header hname hbases hfields hoperators
  have hblock : ∀ b ∈ d.header :: d.methods.map Method.block, ∀ l ∈ b.lines, Unbroken l := by
    intro b hb
    rcases List.mem_cons.1 hb with rfl | hb
    · exact hheader
    · obtain ⟨m, hm, rfl⟩ := List.mem_map.1 hb
      exact m.unbroken_block (hmethods m hm)
  intro l hl
  rcases List.mem_append.1 hl with hl | hl
  · obtain ⟨b, hb, hl⟩ := List.mem_flatMap.1 hl
    rcases List.mem_append.1 hl with hl | hl
    · exact hblock b hb l hl
    · exact List.mem_singleton.1 hl ▸ by decide
  · obtain ⟨c, hc, hl⟩ := List.mem_flatMap.1 hl
    exact c.unbroken_block (hconstructor c hc) l hl

/-- A class has a text.  It is read as its header, its methods and its constructor, each in a block
    of its own, and every annotation belongs to the statement of its block. -/
theorem classText_blocks (d : ClassDeclaration) (h : ∀ s ∈ d.strings, Unbroken s) :
    ∃ (text : String) (header : Block) (methods constructors : List Block),
      (Declaration.cls d).text? = some text ∧
      blocksOf (linesOf text) = (header :: methods ++ constructors).map Block.lines ∧
      (∀ b ∈ header :: methods ++ constructors, b.SelfContained) ∧
      header.statement = "CS." ++ d.name ++ " = \x7b\x7d" ∧
      List.Forall₂ Method.ShownBy d.methods methods ∧
      List.Forall₂ Constructor.ShownBy d.constructor.toList constructors ∧
      ∀ across, statementsOf across [] (linesOf text) = header :: methods ++ constructors := by
  have hlines : linesOf d.text = d.lines := by
    rw [text_eq_ofLines, linesOf_ofLines (unbroken_lines h)]
  have hblocks : ∀ b ∈ d.header :: d.methods.map Method.block, b.SelfContained := by
    intro b hb
    rcases List.mem_cons.1 hb with rfl | hb
    · exact d.selfContained_header
    · obtain ⟨m, -, rfl⟩ := List.mem_map.1 hb
      exact m.selfContained_block
  have hconstructors : ∀ b ∈ d.constructor.toList.map Constructor.block, b.SelfContained :=
    List.forall_mem_map.2 fun c _ => c.selfContained_block
  refine ⟨d.text, d.header, d.methods.map Method.block,
    d.constructor.toList.map Constructor.block, rfl, ?_, ?_, rfl, ?_, ?_, ?_⟩
  · rw [hlines, lines, blocksOf_spaced hblocks, List.map_append]
    cases d.constructor with
    | none => rfl
    | some c =>
      rw [Option.toList_some, List.flatMap_singleton, blocksOf_lines c.selfContained_block]
      rfl
  · intro b hb
    exact (List.mem_append.1 hb).elim (hblocks b) (hconstructors b)
  · exact List.forall₂_map_right_iff.2 (List.forall₂_same.2 fun m _ => m.shownBy_block)
  · exact List.forall₂_map_right_iff.2 (List.forall₂_same.2 fun c _ => c.shownBy_block)
  · intro across
    rw [hlines, lines, statementsOf_spaced hblocks]
    cases d.constructor with
    | none => rfl
    | some c =>
      have hlast : statementsOf across [] (c.block.lines ++ []) = [c.block] :=
        statementsOf_lines c.selfContained_block
      rw [Option.toList_some, List.flatMap_singleton, ← List.append_nil c.block.lines, hlast]
      rfl

/-- A method with an overload and without a result. -/
def move : Method :=
  .group
    { className := "Shape", name := "Move", isInstance := true, isAsync := true
      parameters := [{ name := "by", type := "Vector" }]
      overloads := [{ isInstance := true, parameters := [{ name := "x", type := "number" }] }] }

/-- A generic method. -/
def find : Method :=
  .generic
    { className := "Shape", name := "Find", isInstance := false
      genericParameters := [{ name := "T" }, { name := "U", constraint := some "Shape" }]
      parameters := [{ name := "names", type := "string", isVariadic := true }]
      returnType := "T" }

def new : Constructor :=
  { className := "Shape", parameters := [{ name := "size", type := "number" }] }

def shape : ClassDeclaration where
  name := "Shape"
  baseTypes := ["Object"]
  fields := [{ name := "id", type := "string" }]
  operators := [{ name := "unm", resultType := "Shape" }]
  methods := [move, find]
  constructor := some new

theorem shapeText_blocks :
    (∀ s ∈ shape.strings, Unbroken s) ∧
      ∃ (text : String) (header moveBlock findBlock newBlock : Block),
        (Declaration.cls shape).text? = some text ∧
        blocksOf (linesOf text)
          = [header.lines, moveBlock.lines, findBlock.lines, newBlock.lines] ∧
        move.ShownBy moveBlock ∧ find.ShownBy findBlock ∧ new.ShownBy newBlock := by
  have hstrings : ∀ s ∈ shape.strings, Unbroken s := by decide
  obtain ⟨text, header, methods, constructors, htext, hblocks, -, -, hmethods, hconstructors, -⟩ :=
    shape.classText_blocks hstrings
  -- There are as many blocks of each kind as there are members of it.
  obtain _ | ⟨hmove, _ | ⟨hfind, ⟨⟩⟩⟩ := hmethods
  obtain _ | ⟨hnew, ⟨⟩⟩ := hconstructors
  exact ⟨hstrings, text, header, _, _, _, htext, hblocks, hmove, hfind, hnew⟩

end ClassDeclaration

end EmmyStubs.Stub
