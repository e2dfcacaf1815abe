import EmmyStubs.Proofs.Onward
import EmmyStubs.Proofs.Requests

/-! # Field lines

    Which members get a field is decided by their names alone, before anything is translated.

    * **`Line`**: what becomes of a member, and `linesOf`: what becomes of all of them.
      `fieldsOf_eq_write` takes collecting apart into this decision and its writing.
    * **`kept_linesOf`**: the first member of every name is kept.
    * **`repeated_linesOf`**: which of the others are reported, told by the members before them.
    * **`write_returns`**, **`log_write`** and **`write_same`**: the fields of what is kept and the
      messages about what is repeated, on any session.
-/

namespace EmmyStubs.Members

variable {g : Graph} {o : Options} {s t : Session}

/-! ## §1. Decisions -/

/-- What becomes of a member that is not passed over. -/
inductive Line where
  | kept (v : Visible)
  | repeated (name : String)

/-- The members that are kept. -/
def keptOf : List Line → List Visible
  | [] => []
  | .kept v :: lines => v :: keptOf lines
  | .repeated _ :: lines => keptOf lines

/-- The names that are repeated. -/
def repeatedOf : List Line → List String
  | [] => []
  | .kept _ :: lines => repeatedOf lines
  | .repeated name :: lines => name :: repeatedOf lines

/-- The hidden names once a member has been considered. -/
def hide (v : Visible) (hidden : List String) : List String :=
  if v.hides then v.name :: hidden else hidden

theorem mem_hide {v : Visible} {hidden : List String} {n : String} :
    n ∈ hide v hidden ↔ (v.hides = true ∧ v.name = n) ∨ n ∈ hidden := by
  unfold hide
  split
  · next h => simp [h, eq_comm]
  · next h => simp [h]

/-- What becomes of some members, `taken` and `hidden` being the names of those before. -/
def linesOf (taken hidden : List String) : List Visible → List Line
  | [] => []
  | v :: vs =>
    if v.isProperty && hidden.contains v.name then linesOf taken hidden vs
    else if taken.contains v.name then .repeated v.name :: linesOf taken (hide v hidden) vs
    else .kept v :: linesOf (v.name :: taken) (hide v hidden) vs

/-- The fields of what is kept; what is repeated is reported. -/
def write (g : Graph) (o : Options) : List Line → Action (List Stub.Field)
  | [] => return []
  | .kept v :: lines => do
    let f ← fieldOf g o v
    let fs ← write g o lines
    return f :: fs
  | .repeated name :: lines => do
    reportDuplicate name
    write g o lines

theorem fieldsOf_eq_write (taken hidden : List String) (vs : List Visible) :
    fieldsOf g o taken hidden vs = write g o (linesOf taken hidden vs) := by
  induction vs generalizing taken hidden with
  | nil => rfl
  | cons v vs ih =>
    unfold fieldsOf linesOf
    dsimp only
    split
    · exact ih _ _
    · split
      · simp only [write, ih, hide]
      · simp only [write, ih, hide]

/-! ## §2. What has been seen -/

/-- The names of the members before, and those of them that a property hides. -/
structure Seen (taken hidden : List String) (before : List Visible) : Prop where
  taken : ∀ n, n ∈ taken ↔ ∃ w ∈ before, w.name = n
  hidden : ∀ n, n ∈ hidden ↔ ∃ w ∈ before, w.isProperty = true ∧ w.hides = true ∧ w.name = n

namespace Seen

variable {taken hidden : List String} {before : List Visible} {v : Visible}

theorem nil : Seen [] [] [] :=
  ⟨by simp, by simp⟩

/-- A hidden name is taken. -/
theorem taken_of_hidden (h : Seen taken hidden before) {n : String} (hn : n ∈ hidden) :
    n ∈ taken := by
  obtain ⟨w, hw, -, -, hname⟩ := (h.hidden n).1 hn
  exact (h.taken n).2 ⟨w, hw, hname⟩

theorem kept (h : Seen taken hidden before) (hv : v.hides → v.isProperty) :
    Seen (v.name :: taken) (hide v hidden) (before ++ [v]) where
  taken n := by
    rw [List.mem_cons, h.taken]
    simp [or_comm, or_and_right, exists_or, eq_comm]
  hidden n := by
    rw [mem_hide, h.hidden]
    simp only [List.mem_append, List.mem_singleton, or_and_right, exists_or, exists_eq_left]
    constructor
    · rintro (⟨hh, hn⟩ | hold)
      · exact .inr ⟨hv hh, hh, hn⟩
      · exact .inl hold
    · rintro (hold | ⟨-, hh, hn⟩)
      · exact .inr hold
      · exact .inl ⟨hh, hn⟩

/-- A name that is taken need not be noted again. -/
theorem repeated (h : Seen taken hidden before) (hv : v.hides → v.isProperty)
    (htaken : v.name ∈ taken) : Seen taken (hide v hidden) (before ++ [v]) where
  taken n := by
    rw [← (h.kept hv).taken, List.mem_cons, or_iff_right_of_imp]
    rintro rfl
    exact htaken
  hidden := (h.kept hv).hidden

/-- Nor one that is hidden. -/
theorem skipped (h : Seen taken hidden before) (hv : v.hides → v.isProperty)
    (hhidden : v.name ∈ hidden) : Seen taken hidden (before ++ [v]) where
  taken := (h.repeated hv (h.taken_of_hidden hhidden)).taken
  hidden n := by
    rw [← (h.kept hv).hidden, mem_hide, or_iff_right_of_imp]
    rintro ⟨-, rfl⟩
    exact hhidden

end Seen

/-! ## §3. What is kept -/

/-- The first member of every name is kept.  That a property hides a name makes no difference,
    since the name is taken then. -/
theorem kept_linesOf {taken hidden : List String} {before : List Visible}
    (h : Seen taken hidden before) {vs : List Visible} (hvs : ∀ v ∈ vs, v.hides → v.isProperty) :
    keptOf (linesOf taken hidden vs)
      = firsts (·.name) (vs.filter fun v => !taken.contains v.name) := by
  induction vs generalizing taken hidden before with
  | nil => simp [linesOf, keptOf, firsts_nil]
  | cons v vs ih =>
    have hv := hvs v List.mem_cons_self
    have hrest := fun w hw => hvs w (List.mem_cons_of_mem v hw)
    unfold linesOf
    split
    · next hskip =>
      simp only [Bool.and_eq_true, List.contains_iff_mem] at hskip
      have htaken := h.taken_of_hidden hskip.2
      rw [List.filter_cons_of_neg (by simpa using htaken)]
      exact ih (h.skipped hv hskip.2) hrest
    · split
      · next htaken =>
        rw [List.contains_iff_mem] at htaken
        rw [List.filter_cons_of_neg (by simpa using htaken)]
        exact ih (h.repeated hv htaken) hrest
      · next hnew =>
        have hothers : ∀ w : Visible, (!w.name == v.name && !taken.contains w.name)
            = !(v.name :: taken).contains w.name := fun w => by
          rw [List.contains_cons, Bool.not_or]
        rw [List.filter_cons_of_pos (by simpa using hnew), firsts_cons, keptOf,
          ih (h.kept hv) hrest, List.filter_filter]
        simp only [hothers]

/-! ## §4. What is reported -/

/-- Whether a member is reported: its name has occurred, and it is no property whose name an
    earlier property hides. -/
def isReported (before : List Visible) (v : Visible) : Bool :=
  before.any (·.name == v.name)
    && !(v.isProperty && before.any fun w => w.isProperty && w.hides && w.name == v.name)

/-- The members that are reported, in order. -/
def reported (before : List Visible) : List Visible → List Visible
  | [] => []
  | v :: vs =>
    if isReported before v then v :: reported (before ++ [v]) vs else reported (before ++ [v]) vs

theorem isReported_iff {taken hidden : List String} {before : List Visible}
    (h : Seen taken hidden before) (v : Visible) :
    isReported before v = true ↔
      v.name ∈ taken ∧ ¬(v.isProperty = true ∧ v.name ∈ hidden) := by
  rw [h.taken, h.hidden, isReported, Bool.and_eq_true]
  refine and_congr (by simp) ?_
  rw [Bool.not_eq_true', ← Bool.not_eq_true, not_iff_not]
  simp [and_assoc]

theorem repeated_linesOf {taken hidden : List String} {before : List Visible}
    (h : Seen taken hidden before) {vs : List Visible} (hvs : ∀ v ∈ vs, v.hides → v.isProperty) :
    repeatedOf (linesOf taken hidden vs) = (reported before vs).map (·.name) := by
  induction vs generalizing taken hidden before with
  | nil => rfl
  | cons v vs ih =>
    have hv := hvs v List.mem_cons_self
    have hrest := fun w hw => hvs w (List.mem_cons_of_mem v hw)
    have hreported := isReported_iff h v
    unfold linesOf reported
    split
    · next hskip =>
      simp only [Bool.and_eq_true, List.contains_iff_mem] at hskip
      rw [if_neg fun hr => (hreported.1 hr).2 hskip]
      exact ih (h.skipped hv hskip.2) hrest
    · next hshown =>
      simp only [Bool.and_eq_true, List.contains_iff_mem] at hshown
      split
      · next htaken =>
        rw [List.contains_iff_mem] at htaken
        rw [if_pos (hreported.2 ⟨htaken, hshown⟩), repeatedOf, List.map_cons,
          ih (h.repeated hv htaken) hrest]
      · next hnew =>
        rw [List.contains_iff_mem] at hnew
        rw [if_neg fun hr => hnew (hreported.1 hr).1]
        exact ih (h.kept hv) hrest

/-! ## §5. Writing -/

/-- What a field says of its member is what translating the type of the member returns from `s`
    on. -/
structure Fielded (g : Graph) (o : Options) (s : Session) (v : Visible) (f : Stub.Field) :
    Prop where
  name : f.name = keyName v.name
  access : f.access = v.access
  isStatic : f.isStatic = v.isStatic
  type : (typeText g o false v.type).Returns g o s f.type

theorem write_returns {lines : List Line} (ht : s.Onward g o t) :
    List.Forall₂ (Fielded g o s) (keptOf lines) ((write g o lines).run t).1 := by
  induction lines generalizing t with
  | nil => exact .nil
  | cons line lines ih =>
    cases line with
    | repeated name => exact ih (ht.report _)
    | kept v =>
      have hrest := ih (ht.trans (Session.Onward.typeText false v.type t))
      unfold write fieldOf
      rw [Action.run_bind, Action.run_bind, Action.run_bind]
      exact .cons ⟨rfl, rfl, rfl, t, ht, rfl⟩ hrest

/-- Whether collecting reports an entry. -/
def ofCollect (e : Log.Entry) : Bool :=
  e.source == .collect

/-- The message about a repeated name. -/
def duplicateEntry (name : String) : Log.Entry :=
  ⟨.debug, .collect, "Skipping duplicate member " ++ name ++ "; keeping the most-derived entry"⟩

/-- Translating a type does not report for collecting. -/
theorem log_fieldOf (v : Visible) :
    ((fieldOf g o v).run s).2.log.filter ofCollect = s.log.filter ofCollect := by
  have hmapped : (typeText g o false v.type).Asks
      (Request.Translates g fun source => source = .mapper) := typeText_asks (by rfl) false v.type
  have hasks : (fieldOf g o v).Asks (Request.Translates g fun source => source = .mapper) :=
    Action.Asks.bind hmapped fun _ => trivial
  refine hasks.run (fun t => t.log.filter ofCollect = s.log.filter ofCollect) ?_ rfl
  intro r t hr ht
  cases r with
  | name r => exact ht
  | mapping r => exact ht
  | report e =>
    have he : ofCollect e = false := by
      rw [ofCollect, show e.source = .mapper from hr]
      rfl
    simpa [Session.serve, List.filter_append, he] using ht

/-- What is repeated is reported in order, and collecting reports nothing else. -/
theorem log_write (lines : List Line) :
    ((write g o lines).run s).2.log.filter ofCollect
      = s.log.filter ofCollect ++ (repeatedOf lines).map duplicateEntry := by
  induction lines generalizing s with
  | nil => simp [write, repeatedOf]
  | cons line lines ih =>
    cases line with
    | repeated name =>
      have hlog : (((reportDuplicate name).run s).2.log.filter ofCollect)
          = s.log.filter ofCollect ++ [duplicateEntry name] := by
        simp [reportDuplicate, Action.report, Action.request, Session.serve, List.filter_append,
          duplicateEntry, ofCollect]
      unfold write
      rw [Action.run_bind, ih, hlog, repeatedOf, List.map_cons, List.append_assoc,
        List.singleton_append]
    | kept v =>
      unfold write
      rw [Action.run_bind, Action.run_bind, Action.pure_eq_done, Action.run_done, ih, log_fieldOf,
        repeatedOf]

/-- But for these messages, writing translates what is kept and does nothing else. -/
theorem write_same {lines : List Line} (hs : s.Same (fun e => !ofCollect e) t) :
    ((write g o lines).run t).1 = (((keptOf lines).mapM (fieldOf g o)).run s).1 ∧
      (((keptOf lines).mapM (fieldOf g o)).run s).2.Same (fun e => !ofCollect e)
        ((write g o lines).run t).2 := by
  induction lines generalizing s t with
  | nil => exact ⟨rfl, hs⟩
  | cons line lines ih =>
    cases line with
    | repeated name => exact ih (hs.report rfl)
    | kept v =>
      obtain ⟨hfield, hs'⟩ := (fieldOf g o v).run_same hs
      obtain ⟨hrest, hs''⟩ := ih hs'
      unfold write
      rw [keptOf, List.mapM_cons]
      simp only [Action.run_bind, Action.pure_eq_done, Action.run_done, hfield, hrest, hs'',
        and_self]

end EmmyStubs.Members
