import EmmyStubs.Proofs.Onward

/-! # Methods and their records

    Methods reach the declaration of a class by two ways: those that are not generic in groups,
    as a signature with overloads, and the generic ones that can be annotated one by one.

    * **`Signed`**: a signature in a record stands for a method.
    * **`Conserves`**: the records hold one signature for every method that is not left out, and
      nothing else.
    * **`methods_conserved`**: this is how methods are collected, whatever the session holds.
-/

namespace EmmyStubs

/-! ## §1. Records -/

namespace Stub

def MethodGroup.key (r : MethodGroup) : Members.GroupKey :=
  ⟨r.name, r.access, r.isInstance, r.isAsync⟩

/-- The signature of a group followed by its overloads. -/
def MethodGroup.signatures (r : MethodGroup) : List Overload :=
  ⟨r.isInstance, r.parameters, r.returnType⟩ :: r.overloads

def GenericMethod.key (r : GenericMethod) : Members.GroupKey :=
  ⟨r.name, r.access, r.isInstance, r.isAsync⟩

def GenericMethod.signature (r : GenericMethod) : Overload :=
  ⟨r.isInstance, r.parameters, r.returnType⟩

end Stub

namespace Members

variable {g : Graph} {o : Options} {s t : Session} {d : Descriptor}

/-- What a record says of its method is what translating the method returns from `s` on. -/
structure Signed (g : Graph) (o : Options) (s : Session) (m : Descriptor.Method)
    (v : Stub.Overload) : Prop where
  isInstance : v.isInstance = !m.isStatic
  returns : (signature g o m).Returns g o s (v.parameters, v.returnType)

/-- The same of a generic method, whose record also has its key and generic parameters. -/
structure GenericSigned (g : Graph) (o : Options) (s : Session) (m : Descriptor.Method)
    (r : Stub.GenericMethod) : Prop where
  key : r.key = groupKey g m
  signed : Signed g o s m r.signature
  generics : (genericParameters g (g.findAll m.genericArguments)).Returns g o s r.genericParameters

/-- The generic methods that get a record. -/
def isAnnotated (g : Graph) (m : Descriptor.Method) : Bool :=
  !m.isCompilerGenerated && g.isSupportedGeneric m

/-- The methods that are not left out. -/
def isEmitted (g : Graph) (m : Descriptor.Method) : Bool :=
  !m.isCompilerGenerated && (!m.isGeneric || g.isSupportedGeneric m)

/-- The methods of a group. -/
def groupOf (g : Graph) (ms : List Descriptor.Method) (key : GroupKey) : List Descriptor.Method :=
  ms.filter fun m => isGrouped m && groupKey g m == key

/-- How the records of a class come from methods.  Groups are told apart by their keys, which
    come in the order in which they first occur; every method that is not left out has one
    signature in one record. -/
structure Conserves (g : Graph) (o : Options) (s s' : Session) (ms : List Descriptor.Method)
    (groups : List Stub.MethodGroup) (generics : List Stub.GenericMethod) : Prop where
  keys : groups.map (·.key) = ((ms.filter isGrouped).map (groupKey g)).eraseDups
  distinct : (groups.map (·.key)).Nodup
  signatures : ∀ r ∈ groups, List.Forall₂ (Signed g o s) (groupOf g ms r.key) r.signatures
  generics : List.Forall₂ (GenericSigned g o s') (ms.filter (isAnnotated g)) generics
  once : ((groups.flatMap fun r => groupOf g ms r.key) ++ ms.filter (isAnnotated g)).Perm
    (ms.filter (isEmitted g))

/-! ## §2. Groups -/

theorem overloadsOf_signed {ms : List Descriptor.Method} (h : Refers g ms)
    (ht : s.Onward g o t) :
    List.Forall₂ (Signed g o s) ms ((overloadsOf g o ms).run t).1 := by
  induction ms generalizing t with
  | nil => exact .nil
  | cons m ms ih =>
    have hm := h m List.mem_cons_self
    have ht' := ht.trans (Session.Onward.serves.signature hm t)
    have hrest := ih (fun n hn => h n (List.mem_cons_of_mem m hn)) ht'
    unfold overloadsOf
    rw [Action.run_bind, Action.run_bind]
    exact .cons ⟨rfl, t, ht, rfl⟩ hrest

/-- A group has at least one method, and all its methods have its key. -/
def Keyed (g : Graph) (e : GroupKey × List Descriptor.Method) : Prop :=
  e.2 ≠ [] ∧ ∀ m ∈ e.2, groupKey g m = e.1

theorem keyed_of_mem_groups {ms : List Descriptor.Method}
    {e : GroupKey × List Descriptor.Method} (h : e ∈ groups g ms) : Keyed g e := by
  rw [groups_eq_buckets] at h
  refine ⟨ne_nil_of_mem_buckets h, fun m hm => ?_⟩
  rw [filter_of_mem_buckets h] at hm
  simpa using (List.mem_filter.1 hm).2

/-- The record of a group. -/
structure GroupSigned (g : Graph) (o : Options) (s : Session)
    (e : GroupKey × List Descriptor.Method) (r : Stub.MethodGroup) : Prop where
  key : r.key = e.1
  signatures : List.Forall₂ (Signed g o s) e.2 r.signatures

theorem groupRecords_signed {className : String}
    {entries : List (GroupKey × List Descriptor.Method)} (h : ∀ e ∈ entries, Refers g e.2)
    (hkeyed : ∀ e ∈ entries, Keyed g e) (ht : s.Onward g o t) :
    List.Forall₂ (GroupSigned g o s) entries
      ((groupRecords g o className entries).run t).1 := by
  induction entries generalizing t with
  | nil => exact .nil
  | cons e rest ih =>
    obtain ⟨k, ms⟩ := e
    obtain ⟨hne, hkey⟩ := hkeyed _ List.mem_cons_self
    have hms : Refers g ms := h (k, ms) List.mem_cons_self
    cases ms with
    | nil => exact absurd rfl hne
    | cons first others =>
      have hfirst := hms first List.mem_cons_self
      have hothers : Refers g others := fun m hm => hms m (List.mem_cons_of_mem first hm)
      have ht₁ := ht.trans (Session.Onward.serves.signature hfirst t)
      have ht₂ := ht₁.trans (Session.Onward.serves.overloadsOf hothers _)
      have hrest := ih (fun e he => h e (List.mem_cons_of_mem _ he))
        (fun e he => hkeyed e (List.mem_cons_of_mem _ he)) ht₂
      -- The record takes its flags from the key, which is that of the first method.
      have hinstance : k.isInstance = !first.isStatic := by
        have hk : groupKey g first = k := hkey first List.mem_cons_self
        rw [← hk]
        rfl
      unfold groupRecords
      rw [Action.run_bind, Action.run_bind, Action.run_bind]
      exact .cons ⟨rfl, .cons ⟨hinstance, t, ht, rfl⟩ (overloadsOf_signed hothers ht₁)⟩ hrest

theorem methods_signed (hd : g.Has d) (ancestors : Bool) (s : Session) :
    List.Forall₂ (GroupSigned g o s)
      (groups g ((candidateMethods g d ancestors).filter isGrouped))
      ((methods g o d ancestors).run s).1 := by
  unfold methods
  rw [Action.run_bind]
  refine groupRecords_signed (fun e he m hm => ?_) (fun e he => keyed_of_mem_groups he)
    (Session.Onward.serves.resolve hd s)
  have hmem := mem_of_mem_groups ⟨e, he, hm⟩
  exact refers_candidateMethods hd m (List.mem_filter.1 hmem).1

/-! ## §3. Generic methods -/

theorem genericRecords_signed {className : String} {ms : List Descriptor.Method}
    (h : Refers g ms) (ht : s.Onward g o t) :
    List.Forall₂ (GenericSigned g o s) ms ((genericRecords g o className ms).run t).1 := by
  induction ms generalizing t with
  | nil => exact .nil
  | cons m ms ih =>
    have hm := h m List.mem_cons_self
    have ht₁ : s.Onward g o ((genericParameters g (g.findAll m.genericArguments)).run t).2 :=
      ht.trans (Session.Onward.serves.genericParameters t)
    have ht₂ := ht₁.trans (Session.Onward.serves.signature hm _)
    have hrest := ih (fun n hn => h n (List.mem_cons_of_mem m hn)) ht₂
    unfold genericRecords
    rw [Action.run_bind, Action.run_bind, Action.run_bind]
    exact .cons ⟨rfl, ⟨rfl, _, ht₁, rfl⟩, t, ht, rfl⟩ hrest

theorem genericMethods_signed {ancestors : Bool} (hd : g.Has d) :
    List.Forall₂ (GenericSigned g o s)
      ((candidateMethods g d ancestors).filter (isAnnotated g))
      ((genericMethods g o d ancestors).run s).1 := by
  unfold genericMethods
  rw [Action.run_bind]
  refine genericRecords_signed (fun m hm => ?_) (Session.Onward.serves.resolve hd s)
  exact refers_candidateMethods hd m (List.mem_filter.1 hm).1

/-! ## §4. Conservation -/

/-- Only generic methods can be annotated as such. -/
theorem isGeneric_of_isSupportedGeneric {m : Descriptor.Method}
    (h : g.isSupportedGeneric m = true) : m.isGeneric = true := by
  unfold Graph.isSupportedGeneric at h
  simp only [Bool.and_eq_true] at h
  exact h.1.1

/-- A method that is not left out is grouped or annotated, and not both. -/
theorem isEmitted_eq (m : Descriptor.Method) :
    isEmitted g m = (isGrouped m || isAnnotated g m) ∧
      (isGrouped m && isAnnotated g m) = false := by
  have hgeneric := @isGeneric_of_isSupportedGeneric g m
  unfold isEmitted isGrouped isAnnotated
  cases m.isCompilerGenerated <;> cases hm : m.isGeneric <;>
    cases hs : g.isSupportedGeneric m <;> simp_all

theorem emitted_perm (ms : List Descriptor.Method) :
    (ms.filter isGrouped ++ ms.filter (isAnnotated g)).Perm (ms.filter (isEmitted g)) := by
  have hgrouped : (ms.filter (isEmitted g)).filter isGrouped = ms.filter isGrouped := by
    rw [List.filter_filter]
    refine List.filter_congr fun m _ => ?_
    obtain ⟨heq, -⟩ := isEmitted_eq (g := g) m
    rw [heq]
    cases isGrouped m <;> rfl
  have hannotated : (ms.filter (isEmitted g)).filter (fun m => !isGrouped m)
      = ms.filter (isAnnotated g) := by
    rw [List.filter_filter]
    refine List.filter_congr fun m _ => ?_
    obtain ⟨heq, hboth⟩ := isEmitted_eq (g := g) m
    rw [heq]
    revert hboth
    cases isGrouped m <;> simp
  rw [← hgrouped, ← hannotated]
  exact List.filter_append_perm _ _

/-- The records of groups have the keys of the groups, in order. -/
theorem map_key_of_signed {entries : List (GroupKey × List Descriptor.Method)}
    {records : List Stub.MethodGroup} (h : List.Forall₂ (GroupSigned g o s) entries records) :
    records.map (·.key) = entries.map (·.1) := by
  induction h with
  | nil => rfl
  | cons hr _ ih => rw [List.map_cons, List.map_cons, hr.key, ih]

theorem groupOf_of_mem_groups {ms : List Descriptor.Method}
    {e : GroupKey × List Descriptor.Method} (h : e ∈ groups g (ms.filter isGrouped)) :
    groupOf g ms e.1 = e.2 := by
  rw [groups_eq_buckets] at h
  rw [filter_of_mem_buckets h, List.filter_filter]
  refine List.filter_congr fun m _ => ?_
  exact Bool.and_comm _ _

/-- No method is lost or declared twice.  For any type and either way of collecting, the records
    of groups and of generic methods come from the methods of the candidates as `Conserves`
    says, whatever the sessions hold. -/
theorem methods_conserved (g : Graph) (o : Options) (d : Descriptor) (hd : g.Has d)
    (ancestors : Bool) (s s' : Session) :
    Conserves g o s s' (candidateMethods g d ancestors)
      ((methods g o d ancestors).run s).1 ((genericMethods g o d ancestors).run s').1 := by
  have hsigned := methods_signed (o := o) hd ancestors s
  have hkeys : ((methods g o d ancestors).run s).1.map (·.key)
      = (((candidateMethods g d ancestors).filter isGrouped).map (groupKey g)).eraseDups := by
    rw [map_key_of_signed hsigned, groups_eq_buckets, map_fst_buckets]
  refine ⟨hkeys, ?_, fun r hr => ?_, genericMethods_signed hd, ?_⟩
  · rw [hkeys]
    exact nodup_eraseDups _
  · obtain ⟨e, he, hr⟩ := exists_of_mem_left hsigned.flip hr
    rw [hr.key, groupOf_of_mem_groups he]
    exact hr.signatures
  · have hgroups : ((methods g o d ancestors).run s).1.flatMap
          (fun r => groupOf g (candidateMethods g d ancestors) r.key)
        = (groups g ((candidateMethods g d ancestors).filter isGrouped)).flatMap (·.2) := by
      have hmap := List.flatMap_map Stub.MethodGroup.key
        (groupOf g (candidateMethods g d ancestors)) ((methods g o d ancestors).run s).1
      rw [← hmap, map_key_of_signed hsigned, List.flatMap_map]
      exact List.flatMap_congr fun e he => groupOf_of_mem_groups he
    rw [hgroups, groups_eq_buckets]
    exact ((flatten_buckets_perm _ _).append_right _).trans (emitted_perm _)

/-! ### A rack is a shelf -/

/-- A rack puts things in two ways, one of which it has from an interface, and can find them. -/
def rack : Descriptor :=
  { identity := "R.Rack", name := "Rack", space := some "R", base := some "R.Shelf",
    methods := [{ name := "Put", parameters := [⟨some "item", "R.Item", false, false⟩] },
      { name := "R.IStore.Put" }, { name := "<Put>b__0", isCompilerGenerated := true },
      { name := "Find", parameters := [⟨some "like", "T", false, false⟩], returnType := some "T",
        genericArguments := ["T"] }] }

/-- A shelf puts things in a third way and, without an instance, in a fourth.  What is generic
    about it cannot be annotated. -/
def shelf : Descriptor :=
  { identity := "R.Shelf", name := "Shelf", space := some "R",
    methods := [{ name := "Put", isStatic := true },
      { name := "Put", parameters := [⟨none, "System.Int32", true, false⟩] },
      { name := "All", genericArguments := ["T"] }] }

def rackGraph : Graph :=
  ⟨[rack, shelf, { identity := "R.Item", name := "Item", space := some "R" },
    { identity := "System.Int32", name := "Int32", space := some "System", isExternal := true },
    { identity := "T", name := "T", kind := .genericParameter, isMethodParameter := true,
      hasReferenceTypeConstraint := true }]⟩

theorem rackMethods_conserved :
    let groups := ((methods rackGraph {} rack true).run .start).1
    let generics := ((genericMethods rackGraph {} rack true).run .start).1
    rackGraph.Has rack ∧
      Conserves rackGraph {} .start .start (candidateMethods rackGraph rack true) groups generics ∧
      groups.map (fun r => (r.key.name, r.key.isInstance, r.signatures.length))
        = [("Put", true, 3), ("Put", false, 1)] ∧
      generics.map (·.name) = ["Find"] := by
  have hd : rackGraph.Has rack := rfl
  refine ⟨hd, methods_conserved rackGraph {} rack hd true .start .start, ?_⟩
  decide +kernel

end Members

end EmmyStubs
