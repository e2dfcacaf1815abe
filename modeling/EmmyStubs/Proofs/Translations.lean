import EmmyStubs.Proofs.Traits
import EmmyStubs.Proofs.Walks

/-! # Translations on a shared session

    Names and expressions reach a declaration only through `resolve` and `mapType`, so what was
    said of these carries over to everything that is built from them:

    * **`Gives`**: in any valid session an action has one given result and leaves behind what
      some types lead to.
    * **`Determined`**: an action gives something, and maps only types that the graph refers to.
      Determined actions can be put behind one another.
    * **`renderGroup_determined`**: the translation of a group is determined, and so is every
      part of it.
-/

namespace EmmyStubs

variable {g : Graph} {o : Options} {α β : Type}

/-! ## §1. Given results -/

/-- In any valid session that has the types `l` among its roots, the result is `a`; afterwards
    all that `l` lead to is held, as far as it may be. -/
def Gives (g : Graph) (o : Options) (counted : Prop) (x : Action α) (a : α) (l : List Identity) :
    Prop :=
  ∀ before, ∀ roots : Identity → Prop, (∀ t ∈ l, roots t) → ∀ s : Session,
    x.Meets (Session.Valid g o before counted roots)
      (fun b s' => b = a ∧ (counted → s'.Complete g o (· ∈ l))) s

theorem Session.Complete.append {l l' : List Identity} {s s' : Session}
    (h : s.Complete g o (· ∈ l)) (h' : s'.Complete g o (· ∈ l')) (hs : s ≤ s') :
    s'.Complete g o (· ∈ l ++ l') := by
  intro r hr t ht hk hc
  rcases List.mem_append.1 hr with hr | hr
  · exact (h r hr t ht hk hc).of_le hs
  · exact h' r hr t ht hk hc

theorem Session.complete_nil {s : Session} : s.Complete g o (· ∈ ([] : List Identity)) :=
  fun r hr => absurd hr (by simp)

namespace Gives

variable {counted : Prop} {x : Action α} {f : α → Action β} {a : α} {b : β} {l l' : List Identity}

theorem pure : Gives g o counted (Pure.pure a) a [] :=
  fun _ _ _ _ => Action.Meets.pure fun _ _ _ => ⟨rfl, fun _ => Session.complete_nil⟩

theorem bind (hx : Gives g o counted x a l) (hf : Gives g o counted (f a) b l') :
    Gives g o counted (x >>= f) b (l ++ l') := by
  intro before roots hroots s
  refine Action.Meets.bind ((hx before roots (fun t ht => hroots t (by simp [ht])) s).imp ?_)
  rintro _ s₁ - - ⟨rfl, hl⟩
  refine (hf before roots (fun t ht => hroots t (by simp [ht])) s₁).imp ?_
  rintro _ s₂ hs - ⟨rfl, hl'⟩
  exact ⟨rfl, fun hc => (hl hc).append (hl' hc) hs⟩

theorem resolve {d : Descriptor} (hd : g.Has d) :
    Gives g o counted (resolve g d) (g.qualifiedName d) [] :=
  fun _ _ _ _ => (resolve_meets hd).imp fun _ _ _ _ h => ⟨h, fun _ => Session.complete_nil⟩

theorem report {level : Log.Level} {source : Log.Source} {message : String} :
    Gives g o counted (Action.report level source message) () [] :=
  fun _ _ _ _ => report_meets fun _ _ _ => ⟨rfl, fun _ => Session.complete_nil⟩

theorem mapType {id : Identity} (hg : ¬counted → g.Closed) (hid : g.Linked id) :
    Gives g o counted (mapType g o id) (g.expr o id) [id] := by
  intro before roots hroots s
  have hroot : ∃ r, roots r ∧ g.Leads o r id :=
    ⟨id, hroots id (List.mem_singleton_self id), .refl⟩
  refine (mapType_meets hroot (fun hc t ht => (hg hc).knows_of_leads hid ht) s).imp ?_
  rintro t s' - - ⟨rfl, hcover⟩
  refine ⟨rfl, fun hc r hr v hv hk hvc => ?_⟩
  have hr : r = id := List.mem_singleton.1 hr
  exact hcover hc v (hr ▸ hv) hk hvc

/-- What an action gives is what it returns on its own in any valid session. -/
theorem run {before s : Session} {roots : Identity → Prop} (h : Gives g o counted x a l)
    (hroots : ∀ t ∈ l, roots t) (hs : Session.Valid g o before counted roots s) :
    (x.run s).1 = a ∧ Session.Valid g o before counted roots (x.run s).2 ∧
      (counted → (x.run s).2.Complete g o (· ∈ l)) := by
  obtain ⟨hvalid, ha, hl⟩ := (h before roots hroots s).run hs
  exact ⟨ha, hvalid, hl⟩

end Gives

/-! ## §2. Determined actions -/

/-- An action has one result in every valid session, and maps types that the graph refers to. -/
def Determined (g : Graph) (o : Options) (x : Action α) : Prop :=
  ∃ a l, (∀ t ∈ l, g.Linked t) ∧ ∀ counted, (¬counted → g.Closed) → Gives g o counted x a l

namespace Determined

variable {x : Action α} {f : α → Action β}

theorem pure (a : α) : Determined g o (Pure.pure a) :=
  ⟨a, [], by simp, fun _ _ => .pure⟩

theorem bind (hx : Determined g o x) (hf : ∀ a, Determined g o (f a)) :
    Determined g o (x >>= f) := by
  obtain ⟨a, l, hl, hx⟩ := hx
  obtain ⟨b, l', hl', hf⟩ := hf a
  refine ⟨b, l ++ l', fun t ht => ?_, fun counted hc => (hx counted hc).bind (hf counted hc)⟩
  exact (List.mem_append.1 ht).elim (hl t) (hl' t)

/-- An action, and then a function of its result. -/
theorem map (hx : Determined g o x) (k : α → β) :
    Determined g o (x >>= fun a => Pure.pure (k a)) :=
  hx.bind fun a => .pure (k a)

theorem resolve {d : Descriptor} (hd : g.Has d) : Determined g o (resolve g d) :=
  ⟨_, [], by simp, fun _ _ => .resolve hd⟩

theorem report (level : Log.Level) (source : Log.Source) (message : String) :
    Determined g o (Action.report level source message) :=
  ⟨_, [], by simp, fun _ _ => .report⟩

/-- What a determined action gives is its result on a new session. -/
theorem gives (h : Determined g o x) :
    ∃ l, ∀ counted, (¬counted → g.Closed) → Gives g o counted x (x.run Session.start).1 l := by
  obtain ⟨a, l, -, h⟩ := h
  have hvalid : Session.Valid g o .start True (· ∈ l) .start := Session.valid_start
  -- A new session is valid, so what is given is what is returned there.
  have hrun := (h True fun hc => absurd trivial hc).run (fun _ ht => ht) hvalid
  exact ⟨l, hrun.1 ▸ h⟩

/-- In a closed graph the result is the same in every faithful session.  The session stays
    faithful, and types of other graphs stay untouched. -/
theorem run (h : Determined g o x) (hg : g.Closed) {s : Session} (hs : s.Faithful g o) :
    (x.run s).1 = (x.run Session.start).1 ∧ (x.run s).2.Faithful g o ∧
      Session.Untouched g s (x.run s).2 := by
  obtain ⟨l, hgives⟩ := h.gives
  -- Nothing is known of what else the session holds, so its keys are not accounted for.
  obtain ⟨ha, hvalid, -⟩ := (hgives False fun _ => hg).run (fun _ ht => ht) hs.valid
  exact ⟨ha, hvalid.faithful, hvalid.untouched⟩

theorem typeText {asPart : Bool} {id : Identity} (hid : g.Linked id) :
    Determined g o (typeText g o asPart id) := by
  have hmap : Determined g o (mapType g o id) :=
    ⟨_, [id], by simpa using hid, fun _ hc => .mapType hc hid⟩
  exact hmap.map _

end Determined

/-! ## §3. Declarations -/

/-- Being determined is a trait of actions. -/
def Determined.trait (g : Graph) (o : Options) : Trait Action where
  Of := Determined g o
  pure := .pure
  bind := .bind

theorem Determined.serves : (Determined.trait g o).Serves g o where
  resolve := .resolve
  typeText := .typeText
  report := .report

theorem renderType_determined {d : Descriptor} (hd : g.Has d) :
    Determined g o (renderType g o d) :=
  Determined.serves.renderType hd

/-- The translation of a group of types of the graph has one result in every valid session. -/
theorem renderGroup_determined {assembly : Option String} {grp : Group}
    (h : ∀ d ∈ grp.types, g.Has d) : Determined g o (renderGroup g o assembly grp) :=
  Determined.serves.renderGroup h

theorem renderAll_determined {assembly : Option String} {groups : List Group}
    (h : ∀ grp ∈ groups, ∀ d ∈ grp.types, g.Has d) :
    Determined g o (renderAll g o assembly groups) :=
  Determined.serves.renderAll h

end EmmyStubs
