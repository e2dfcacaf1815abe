import EmmyStubs.Proofs.Enumerations
import EmmyStubs.Proofs.Reaching

/-! # Slots of failing types

    A group is translated on a session that others have used, and may still be using.  A type
    that is refused leaves a note in its slot, and shows in no other slot.

    * **`Descriptor.fault?`**: what is wrong with a type, which no session has a say in.
    * **`Slot`**: what belongs in the slot of a type on any session.
    * **`Alone`**: a slot has what its type gets alone on a new session.
    * **`renderGroup_slots`**: every slot of a group is as it belongs, and those that have not
      failed are as alone where earlier graphs leave nothing wrong behind.
-/

namespace EmmyStubs

variable {g : Graph} {o : Options}

/-! ## §1. Faulty types -/

namespace Descriptor.Constant

def isInteger (c : Descriptor.Constant) : Bool :=
  match c.value with
  | .int _ => true
  | _ => false

/-- The value is an integer that can be written. -/
def isWritable (c : Descriptor.Constant) : Bool :=
  match c.value with
  | .int n => Number.isWritable n
  | _ => false

theorem isInteger_eq_false_iff (c : Descriptor.Constant) :
    c.isInteger = false ↔ ∀ n, c.value ≠ .int n := by
  unfold isInteger
  split
  · next n hn => simpa using ⟨n, hn⟩
  · next hn => simpa using hn

theorem isWritable_eq_false_iff (c : Descriptor.Constant) :
    c.isWritable = false ↔ ∀ n, c.value = .int n → Number.isWritable n = false := by
  unfold isWritable
  split
  · next n hn => simp [hn]
  · next hn => simpa using fun n hint => absurd hint (hn n)

theorem isInteger_of_isWritable {c : Descriptor.Constant} (h : c.isWritable = true) :
    c.isInteger = true := by
  unfold isWritable at h
  unfold isInteger
  split at h
  · rfl
  · cases h

end Descriptor.Constant

/-- What is wrong with a type: the first value of an enumeration that is no integer; or else that
    some value has too many digits. -/
def Descriptor.fault? (d : Descriptor) : Option DeclarationError :=
  if d.kind = .enum then
    match d.constants.find? (!·.isInteger) with
    | some c => some ⟨d.identity, .nonInteger c.name c.value⟩
    | none =>
      if d.constants.all (·.isWritable) then none else some ⟨d.identity, .excess⟩
  else none

theorem Descriptor.isSome_fault?_iff (d : Descriptor) :
    d.fault?.isSome ↔
      d.kind = .enum ∧ ∃ c ∈ d.constants, ∀ n, c.value = .int n → Number.isWritable n = false := by
  simp only [← Constant.isWritable_eq_false_iff]
  unfold fault?
  by_cases hkind : d.kind = .enum
  · rw [if_pos hkind]
    cases hfind : d.constants.find? (!·.isInteger) with
    | some c =>
      -- What is no integer cannot be written as one.
      have hinteger : c.isInteger = false := by simpa using List.find?_some hfind
      have hwritable : c.isWritable = false := by
        rw [← Bool.not_eq_true]
        intro hwritable
        rw [Constant.isInteger_of_isWritable hwritable] at hinteger
        cases hinteger
      have hmem : c ∈ d.constants := List.mem_of_find?_eq_some hfind
      exact iff_of_true rfl ⟨hkind, c, hmem, hwritable⟩
    | none =>
      dsimp only
      by_cases hall : d.constants.all (·.isWritable) = true
      · rw [if_pos hall]
        apply iff_of_false (by simp)
        rintro ⟨-, c, hc, hwritable⟩
        rw [List.all_eq_true.1 hall c hc] at hwritable
        cases hwritable
      · rw [if_neg hall]
        apply iff_of_true rfl
        simpa [hkind] using hall
  · rw [if_neg hkind]
    exact iff_of_false (by simp) fun h => hkind h.1

theorem fault?_identity {d : Descriptor} {e : DeclarationError} (h : d.fault? = some e) :
    e.identity = d.identity := by
  unfold Descriptor.fault? at h
  split at h
  · split at h
    · cases h
      rfl
    · split at h <;> cases h
      rfl
  · cases h

/-! ### What refuses them -/

/-- The first value that is no integer refuses an enumeration. -/
theorem enumMembers_error_iff {id : Identity} {cs : List Descriptor.Constant}
    {e : DeclarationError} : enumMembers id cs = .error e ↔
      (cs.find? (!·.isInteger)).map (fun c => ⟨id, .nonInteger c.name c.value⟩) = some e := by
  induction cs with
  | nil => simp [enumMembers, pure, Except.pure]
  | cons c cs ih =>
    unfold enumMembers
    split
    · next n hn =>
      have hinteger : c.isInteger = true := by simp [Descriptor.Constant.isInteger, hn]
      rw [List.find?_cons_of_neg (by simp [hinteger]), ← ih]
      cases enumMembers id cs <;> simp [bind, Except.bind, pure, Except.pure]
    · next hn =>
      have hinteger : c.isInteger = false := c.isInteger_eq_false_iff.2 hn
      rw [List.find?_cons_of_pos (by simp [hinteger])]
      simp [throw, throwThe, MonadExceptOf.throw]

/-- The members have the values of an enumeration that is not refused. -/
theorem all_isWritable_of_enumMembers {id : Identity} {cs : List Descriptor.Constant}
    {ms : List Stub.EnumMember} (h : enumMembers id cs = .ok ms) :
    cs.all (·.isWritable) = ms.all fun m => Number.isWritable m.value := by
  induction cs generalizing ms with
  | nil =>
    cases h
    rfl
  | cons c cs ih =>
    unfold enumMembers at h
    split at h
    · next n hn =>
      have hfirst : c.isWritable = Number.isWritable n := by
        rw [Descriptor.Constant.isWritable, hn]
      cases hrest : enumMembers id cs with
      | error e =>
        rw [hrest] at h
        cases h
      | ok rest =>
        rw [hrest] at h
        cases h
        rw [List.all_cons, List.all_cons, ih hrest, hfirst]
    · cases h

section

variable {d : Descriptor} {e : DeclarationError}

theorem fault?_of_enumMembers_error (hkind : d.kind = .enum)
    (h : enumMembers d.identity d.constants = .error e) : d.fault? = some e := by
  obtain ⟨c, hc, rfl⟩ := Option.map_eq_some_iff.1 (enumMembers_error_iff.1 h)
  unfold Descriptor.fault?
  rw [if_pos hkind, hc]

/-- An enumeration of integers has no text just if one of them has too many digits. -/
theorem printed_enum_error_iff {name : String} {ms : List Stub.EnumMember} (hkind : d.kind = .enum)
    (h : enumMembers d.identity d.constants = .ok ms) :
    printed d (.enum ⟨name, ms⟩) = .error e ↔ d.fault? = some e := by
  have hfind : d.constants.find? (!·.isInteger) = none := by
    rw [← Option.not_isSome_iff_eq_none]
    intro hsome
    obtain ⟨c, hc⟩ := Option.isSome_iff_exists.1 hsome
    have herror := enumMembers_error_iff.2 (congrArg (Option.map fun c =>
      (⟨d.identity, .nonInteger c.name c.value⟩ : DeclarationError)) hc)
    rw [h] at herror
    cases herror
  have htext : (Stub.Declaration.enum ⟨name, ms⟩).text? = none ↔
      ¬d.constants.all (·.isWritable) = true := by
    rw [all_isWritable_of_enumMembers h, List.all_eq_true, ← Option.not_isSome_iff_eq_none]
    exact not_congr Stub.EnumDeclaration.isSome_text?_iff
  rw [printed_error_iff, htext, Descriptor.fault?, if_pos hkind, hfind]
  dsimp only
  by_cases hall : d.constants.all (·.isWritable) = true
  · simp [hall]
  · simp [hall, eq_comm]

theorem printed_cls_error_iff {c : Stub.ClassDeclaration} (hkind : d.kind ≠ .enum) :
    printed d (.cls c) = .error e ↔ d.fault? = some e := by
  rw [printed_error_iff, Descriptor.fault?, if_neg hkind]
  simp [Stub.Declaration.text?]

/-- Whether a type is refused, and why, is a matter of the type alone. -/
theorem renderType_error_iff {s : Session} :
    ((renderType g o d).run s).1 = .error e ↔ d.fault? = some e := by
  unfold renderType declaration
  rw [Action.run_bind]
  by_cases hkind : d.kind = .enum
  · rw [if_pos hkind]
    cases hmembers : enumMembers d.identity d.constants with
    | error e' =>
      rw [fault?_of_enumMembers_error hkind hmembers]
      simp
    | ok ms =>
      dsimp only
      rw [Action.run_bind]
      exact printed_enum_error_iff hkind hmembers
  · rw [if_neg hkind, Action.run_bind]
    exact printed_cls_error_iff hkind

theorem fault?_of_renderType {s : Session} {r : Stub.Rendered}
    (h : ((renderType g o d).run s).1 = .ok r) : d.fault? = none := by
  refine Option.eq_none_iff_forall_ne_some.2 fun e he => ?_
  rw [renderType_error_iff.2 he] at h
  cases h

end

/-! ## §2. Slots -/

/-- What belongs in the slot of a type: just an enumeration with a value that is no integer, or has
    too many digits, has failed, and has a note there that says why. -/
structure Slot (d : Descriptor) (slot : Stub.Rendered) : Prop where
  identity : slot.identity = d.identity
  failed : slot.failed = true ↔
    d.kind = .enum ∧ ∃ c ∈ d.constants, ∀ n, c.value = .int n → Number.isWritable n = false
  note : ∀ e, d.fault? = some e → slot = Failure.rendered d.identity d.space (some e.reason)

/-- A slot that has not failed has what its type gets alone on a new session. -/
def Alone (g : Graph) (o : Options) (d : Descriptor) (slot : Stub.Rendered) : Prop :=
  slot.failed = false → ((renderType g o d).run Session.start).1 = .ok slot

/-- How a refused type is reported. -/
def Descriptor.failure? (assembly : Option String) (d : Descriptor) : Option Failure :=
  d.fault?.map fun e => ⟨d.identity, e.reason, assembly⟩

theorem slot_of_error {d : Descriptor} {e : DeclarationError} (h : d.fault? = some e) :
    Slot d (Failure.rendered e.identity d.space (some e.reason)) where
  identity := fault?_identity h
  failed := by
    rw [← d.isSome_fault?_iff, h]
    simp [Failure.rendered]
  note e' he' := by
    obtain rfl : e = e' := Option.some_inj.1 (h.symm.trans he')
    rw [fault?_identity h]

theorem slot_of_ok {d : Descriptor} {s : Session} {r : Stub.Rendered}
    (h : ((renderType g o d).run s).1 = .ok r) : Slot d r := by
  have hfault := fault?_of_renderType h
  have hidentity := renderType_identity (g := g) (o := o) d s
  rw [h] at hidentity
  refine ⟨hidentity, ?_, fun e he => ?_⟩
  · rw [← d.isSome_fault?_iff, hfault, failed_of_renderType h]
    simp
  · rw [hfault] at he
    cases he

/-- On any session each type gets its slot, and each faulty one is reported. -/
theorem renderTypes_slots (assembly : Option String) (ds : List Descriptor) (s : Session) :
    List.Forall₂ Slot ds ((renderTypes g o assembly ds).run s).1.1 ∧
      ((renderTypes g o assembly ds).run s).1.2 = ds.filterMap (Descriptor.failure? assembly) := by
  induction ds generalizing s with
  | nil => exact ⟨.nil, rfl⟩
  | cons d ds ih =>
    unfold renderTypes
    rw [Action.run_bind]
    cases hr : ((renderType g o d).run s).1 with
    | ok r =>
      have hfailure : d.failure? assembly = none := by
        rw [Descriptor.failure?, fault?_of_renderType hr, Option.map_none]
      obtain ⟨hslots, hfailures⟩ := ih ((renderType g o d).run s).2
      simp only [Action.run_bind, Action.pure_eq_done, Action.run_done]
      rw [List.filterMap_cons_none hfailure]
      exact ⟨.cons (slot_of_ok hr) hslots, hfailures⟩
    | error e =>
      have hfault := renderType_error_iff.1 hr
      have hfailure : d.failure? assembly = some ⟨e.identity, e.reason, assembly⟩ := by
        rw [Descriptor.failure?, hfault, fault?_identity hfault]
        rfl
      simp only [Action.run_bind, Action.pure_eq_done, Action.run_done]
      rw [List.filterMap_cons_some hfailure]
      obtain ⟨hslots, hfailures⟩ := ih _
      exact ⟨.cons (slot_of_error hfault) hslots, congrArg _ hfailures⟩

/-- On a session that is valid for the graph, what has not failed is as alone. -/
theorem renderTypes_alone {before s : Session} {counted : Prop} (hclosed : ¬counted → g.Closed)
    (hs : Session.Valid g o before counted (fun _ => True) s) (assembly : Option String)
    {ds : List Descriptor} (h : ∀ d ∈ ds, g.Has d) :
    List.Forall₂ (Alone g o) ds ((renderTypes g o assembly ds).run s).1.1 := by
  induction ds generalizing s with
  | nil => exact .nil
  | cons d ds ih =>
    have hrest : ∀ {s'}, Session.Valid g o before counted (fun _ => True) s' →
        List.Forall₂ (Alone g o) ds ((renderTypes g o assembly ds).run s').1.1 :=
      fun hs' => ih hs' fun e he => h e (List.mem_cons_of_mem d he)
    have hdetermined : Determined g o (renderType g o d) :=
      renderType_determined (h d List.mem_cons_self)
    obtain ⟨l, hgives⟩ := hdetermined.gives
    -- The type gets here what it gets on a new session, and the session stays valid.
    obtain ⟨hsame, hvalid, -⟩ := (hgives counted hclosed).run (fun _ _ => trivial) hs
    unfold renderTypes
    rw [Action.run_bind]
    cases hr : ((renderType g o d).run s).1 with
    | ok r =>
      simp only [Action.run_bind, Action.pure_eq_done, Action.run_done]
      exact .cons (fun _ => hsame.symm.trans hr) (hrest hvalid)
    | error e =>
      simp only [Action.run_bind, Action.pure_eq_done, Action.run_done]
      apply List.Forall₂.cons
      · intro hfailed
        cases hfailed
      · exact hrest (hvalid.report _)

/-- On any session a group gets one slot for each of its types, in order.  Just the enumerations
    with a value that is no integer or has too many digits leave a note there, with the first value
    that is no integer if there is one, and are reported in the same order.  With any work on
    graphs behind it or under way that leaves nothing wrong about this one, every other slot has
    what its type gets alone on a new session. -/
theorem renderGroup_slots (g : Graph) (o : Options) (assembly : Option String) (grp : Group)
    (s : Session) :
    let result := ((renderGroup g o assembly grp).run s).1
    result.space = grp.space ∧
      List.Forall₂ Slot grp.types result.declarations ∧
      result.failures = grp.types.filterMap (Descriptor.failure? assembly) ∧
      ∀ graphs, s.Reachable o graphs → g.Accords o graphs → (∀ d ∈ grp.types, g.Has d) →
        List.Forall₂ (Alone g o) grp.types result.declarations := by
  intro result
  obtain ⟨hslots, hfailures⟩ := renderTypes_slots (g := g) (o := o) assembly grp.types s
  have hresult : result = ⟨grp.space, ((renderTypes g o assembly grp.types).run s).1.1,
      ((renderTypes g o assembly grp.types).run s).1.2⟩ := by
    simp only [result, renderGroup]
    rw [Action.run_bind]
    rfl
  rw [hresult]
  refine ⟨rfl, hslots, hfailures, fun graphs hs hg hgrp => ?_⟩
  obtain ⟨before, counted, hclosed, hvalid⟩ := hs.exists_valid hg
  exact renderTypes_alone hclosed hvalid assembly hgrp

/-! ### A faulty enumeration between two classes -/

/-- The value of a member is a truth value. -/
def quarryGraph : Graph :=
  ⟨[{ identity := "Q.Stone", name := "Stone", space := some "Q",
      fields := [{ name := "grain", type := "Q.Grain" }, { name := "next", type := "Q.Stone" }] },
    { identity := "Q.Grain", name := "Grain", space := some "Q", kind := .enum,
      constants := [⟨"Fine", .int 1⟩, ⟨"Coarse", .bool true⟩, ⟨"Mixed", .null⟩] },
    { identity := "Q.Pit", name := "Pit", space := some "Q" }]⟩

/-- All types of the graph. -/
def quarryGroup : Group :=
  ⟨some "Q", quarryGraph.findAll ["Q.Stone", "Q.Grain", "Q.Pit"]⟩

/-- The group has been translated once, and one type mapped before. -/
theorem quarryGroup_slots :
    ∃ s : Session, s.Reachable {} [quarryGraph] ∧ s.mappings.held? "Q.Stone" ≠ none ∧
      let result := ((renderGroup quarryGraph {} (some "Quarry") quarryGroup).run s).1
      List.Forall₂ Slot quarryGroup.types result.declarations ∧
      List.Forall₂ (Alone quarryGraph {}) quarryGroup.types result.declarations ∧
      result.failures =
        [⟨"Q.Grain", "enum member Coarse has non-integer value True", some "Quarry"⟩] := by
  have hgroup : ∀ d ∈ quarryGroup.types, quarryGraph.Has d := fun d hd =>
    Graph.has_of_mem_findAll hd
  let chores : List Chore := [.map "Q.Stone", .translate none quarryGroup]
  have hs : (Session.start.after quarryGraph {} chores).Reachable {} [quarryGraph] :=
    .of_chores (by simpa [chores, Chore.Within] using hgroup)
  obtain ⟨-, hslots, hfailures, halone⟩ :=
    renderGroup_slots quarryGraph {} (some "Quarry") quarryGroup _
  refine ⟨_, hs, by decide +kernel, hslots, halone _ hs .self hgroup, hfailures.trans ?_⟩
  decide +kernel

/-! ### Slots that are not as they should be -/

/-- A class whose field has a type that is described elsewhere. -/
def kioskGraph : Graph :=
  ⟨[{ identity := "K.Kiosk", name := "Kiosk", space := some "K",
      fields := [{ name := "bell", type := "M.Bell" }] },
    { identity := "M.Bell", name := "Bell", space := some "M" }]⟩

/-- A class whose field has a delegate. -/
def marketStall : Descriptor where
  identity := "M.Stall"
  name := "Stall"
  space := some "M"
  fields := [{ name := "bell", type := "M.Bell" }]

def marketGraph : Graph :=
  ⟨[marketStall,
    { identity := "M.Bell", name := "Bell", space := some "M", kind := .delegate,
      invoke := some { name := "Invoke" } }]⟩

/-- An enumeration of one integer, of 4301 digits. -/
def marketTakings : Descriptor where
  identity := "M.Takings"
  name := "Takings"
  space := some "M"
  kind := .enum
  constants := [⟨"All", .int (10 ^ 4300 : Nat)⟩]

/-- The declarations of a group of one type. -/
def slotsOf (g : Graph) (d : Descriptor) (s : Session) : List Stub.Rendered :=
  ((renderGroup g {} none ⟨d.space, [d]⟩).run s).1.declarations

/-- Work on another graph shows in the slot of a class, and an enumeration of integers fails. -/
theorem marketGroup_slots :
    (∃ s slot alone, s.Reachable {} [kioskGraph] ∧ marketGraph.Has marketStall ∧
      slotsOf marketGraph marketStall s = [slot] ∧ slot.failed = false ∧
      ((renderType marketGraph {} marketStall).run .start).1 = .ok alone ∧
      slot.text ≠ alone.text) ∧
    (∀ c ∈ marketTakings.constants, c.isInteger = true) ∧
    ∃ slot, slotsOf ⟨[marketTakings]⟩ marketTakings .start = [slot] ∧ slot.failed = true := by
  let s := Session.start.after kioskGraph {} [.map "M.Bell"]
  have hs : s.Reachable {} [kioskGraph] := .of_chores (by simp [Chore.Within])
  have hshared : (slotsOf marketGraph marketStall s).map (fun slot => (slot.failed, slot.text)) =
      [(false, "---@class M.Stall: System.Object\n---@field bell M.Bell\n"
        ++ "CS.M.Stall = \x7b\x7d\n\n")] := by decide +kernel
  have halone : ((renderType marketGraph {} marketStall).run .start).1.toOption.map (·.text) =
      some ("---@class M.Stall: System.Object\n---@field bell fun()\n"
        ++ "CS.M.Stall = \x7b\x7d\n\n") := by decide +kernel
  have htakings : (slotsOf ⟨[marketTakings]⟩ marketTakings .start).map (·.failed) = [true] := by
    decide +kernel
  obtain ⟨slot, hslot, hfacts⟩ := List.map_eq_singleton_iff.1 hshared
  obtain ⟨alone, halone, htext⟩ := Option.map_eq_some_iff.1 halone
  rw [toOption_eq_some_iff] at halone
  obtain ⟨slot', hslot', hfailed'⟩ := List.map_eq_singleton_iff.1 htakings
  obtain ⟨hfailed, htext'⟩ := Prod.mk.inj hfacts
  refine ⟨⟨s, slot, alone, hs, rfl, hslot, hfailed, halone, ?_⟩, by decide, slot', hslot',
    hfailed'⟩
  rw [htext, htext']
  decide

end EmmyStubs
