import Mathlib.Order.Basic
import EmmyStubs.Session.Action

/-! # Actions on a shared session

    What can be said of an action whose requests are served one by one while others use the
    same session between them:

    * **Growth**: a session grows when its caches keep every value that they hold.  Serving a
      request makes it grow, since caches are written once.
    * **`Action.Meets`**: an action meets a postcondition from a session on if it does so
      whatever the others do, as long as they keep an invariant and only make the session
      grow.  The action keeps the invariant itself.
    * **Runs**: an action that is alone on its session is the special case without others.  What
      it does there is not up to the messages before it (`Action.run_same`).
-/

namespace EmmyStubs

/-! ## §1. What a cache holds -/

namespace Cache

variable {α : Type}

@[simp] theorem held?_empty (key : Identity) : (empty : Cache α).held? key = none := rfl

/-- Storing keeps what is held, and gives the value to a key that had none. -/
theorem held?_store (c : Cache α) (key other : Identity) (value : α) :
    (c.store key value).2.held? other
      = if c.held? key = none ∧ other = key then some value else c.held? other := by
  unfold store
  cases hkey : c.held? key with
  | some v => simp
  | none =>
    simp only [true_and]
    split
    · next heq =>
      subst heq
      -- No entry has the key, so the look-up comes to the new entry behind them all.
      simp only [held?, Option.map_eq_none_iff] at hkey
      simp [held?, List.find?_append, hkey]
    · next hne =>
      have hne' : (key == other) = false := by simpa using fun h => hne h.symm
      simp [held?, List.find?_append, hne']

/-- Storing answers with the value that is held then. -/
theorem store_answer (c : Cache α) (key : Identity) (value : α) :
    (c.store key value).2.held? key = some (c.store key value).1 := by
  rw [held?_store]
  unfold store
  cases c.held? key <;> simp

@[simp] theorem held?_miss (c : Cache α) (key : Identity) : c.miss.held? key = c.held? key := rfl

variable [Vacant α]

@[simp] theorem held?_get (c : Cache α) (key other : Identity) :
    (c.get key).2.held? other = c.held? other := by
  unfold get
  split <;> rfl

end Cache

/-- A look-up in a cache without vacant values finds what is held. -/
theorem Cache.get_answer {α : Type} [Vacant α] (hv : ∀ a : α, Vacant.isVacant a = false)
    (c : Cache α) (key : Identity) : (c.get key).1 = c.held? key := by
  unfold Cache.get Cache.found?
  cases c.held? key with
  | none => rfl
  | some v => simp [Option.filter, hv]

/-! ## §2. Growth -/

namespace Session

/-- A session grows when its caches keep what they hold. -/
instance : Preorder Session where
  le s s' :=
    (∀ key v, s.names.held? key = some v → s'.names.held? key = some v) ∧
    ∀ key v, s.mappings.held? key = some v → s'.mappings.held? key = some v
  le_refl _ := ⟨fun _ _ h => h, fun _ _ h => h⟩
  le_trans _ _ _ h₁ h₂ :=
    ⟨fun key v h => h₂.1 key v (h₁.1 key v h), fun key v h => h₂.2 key v (h₁.2 key v h)⟩

theorem le_mappings {s s' : Session} (h : s ≤ s') {key : Identity} {t : TypeExpr}
    (ht : s.mappings.held? key = some t) : s'.mappings.held? key = some t :=
  h.2 key t ht

theorem isSome_mappings_of_le {s s' : Session} (h : s ≤ s') {key : Identity}
    (hs : (s.mappings.held? key).isSome) : (s'.mappings.held? key).isSome := by
  obtain ⟨t, ht⟩ := Option.isSome_iff_exists.1 hs
  exact Option.isSome_iff_exists.2 ⟨t, le_mappings h ht⟩

/-- What a cache holds is held after any request. -/
theorem held?_serve {α : Type} [Vacant α] (c : Cache α) (r : CacheRequest α) {key : Identity}
    {v : α} (h : c.held? key = some v) : (c.serve r).2.held? key = some v := by
  cases r with
  | get k => simpa [Cache.serve] using h
  | miss => exact h
  | store k value =>
    -- A key that has a value already does not get another one.
    show (c.store k value).2.held? key = some v
    rw [Cache.held?_store, if_neg]
    · exact h
    · rintro ⟨hnone, rfl⟩
      rw [hnone] at h
      exact absurd h (by simp)

/-- Serving a request makes the session grow. -/
theorem le_serve (s : Session) (r : Request) : s ≤ (s.serve r).2 := by
  cases r with
  | name r => exact ⟨fun _ _ h => held?_serve s.names r h, fun _ _ h => h⟩
  | mapping r => exact ⟨fun _ _ h => h, fun _ _ h => held?_serve s.mappings r h⟩
  | report e => exact ⟨fun _ _ h => h, fun _ _ h => h⟩

/-- A look-up among the names answers with what is held. -/
theorem serve_name_get (s : Session) (key : Identity) :
    (s.serve (.name (.get key))).1 = s.names.held? key :=
  Cache.get_answer (fun _ => rfl) s.names key

/-- A look-up among the mappings answers with what is held. -/
theorem serve_mapping_get (s : Session) (key : Identity) :
    (s.serve (.mapping (.get key))).1 = s.mappings.held? key :=
  Cache.get_answer (fun _ => rfl) s.mappings key

end Session

/-! ## §3. Postconditions under interference -/

namespace Action

variable {α β : Type} {Inv : Session → Prop}

/-- From `s` on, whenever the others have made the session grow and kept `Inv`, the next
    request keeps `Inv` too, and the result comes with `Q`, which stays true as the session
    grows on. -/
def Meets (Inv : Session → Prop) (Q : α → Session → Prop) : Action α → Session → Prop
  | done a, s => ∀ s', s ≤ s' → Inv s' → Q a s'
  | ask r next, s =>
    ∀ s', s ≤ s' → Inv s' → Inv (s'.serve r).2 ∧ (next (s'.serve r).1).Meets Inv Q (s'.serve r).2

theorem Meets.of_le {Q : α → Session → Prop} {x : Action α} {s s' : Session}
    (h : x.Meets Inv Q s) (hs : s ≤ s') : x.Meets Inv Q s' := by
  cases x with
  | done a => exact fun t ht => h t (le_trans hs ht)
  | ask r next => exact fun t ht => h t (le_trans hs ht)

/-- It is enough to look at the later sessions that satisfy the invariant. -/
theorem Meets.of_forall_le {Q : α → Session → Prop} {x : Action α} {s : Session}
    (h : ∀ s', s ≤ s' → Inv s' → x.Meets Inv Q s') : x.Meets Inv Q s := by
  cases x with
  | done a => exact fun t ht hi => h t ht hi t le_rfl hi
  | ask r next => exact fun t ht hi => h t ht hi t le_rfl hi

/-- The postcondition may be weakened on sessions that satisfy the invariant. -/
theorem Meets.imp {Q Q' : α → Session → Prop} {x : Action α} {s : Session}
    (h : x.Meets Inv Q s) (hq : ∀ a s', s ≤ s' → Inv s' → Q a s' → Q' a s') :
    x.Meets Inv Q' s := by
  induction x generalizing s with
  | done a => exact fun t ht hi => hq a t ht hi (h t ht hi)
  | ask r next ih =>
    intro t ht hi
    obtain ⟨hi', hn⟩ := h t ht hi
    -- The sessions after the request are later than `s` too.
    refine ⟨hi', ih _ hn fun a s' hs' => hq a s' ?_⟩
    exact le_trans ht (le_trans (Session.le_serve t r) hs')

/-- One action after another. -/
theorem Meets.bind {Q : β → Session → Prop} {x : Action α} {f : α → Action β} {s : Session}
    (h : x.Meets Inv (fun a s' => (f a).Meets Inv Q s') s) : (x >>= f).Meets Inv Q s := by
  induction x generalizing s with
  -- The first request of `x >>= f` is that of `x`, until `x` is done.
  | done a => exact Meets.of_forall_le h
  | ask r next ih =>
    intro t ht hi
    obtain ⟨hi', hn⟩ := h t ht hi
    exact ⟨hi', ih _ hn⟩

/-- An action, and then a function of its result. -/
theorem Meets.map {Q : β → Session → Prop} {x : Action α} {f : α → β} {s : Session}
    (h : x.Meets Inv (fun a s' => Q (f a) s') s) :
    (x >>= fun a => done (f a)).Meets Inv Q s := by
  induction x generalizing s with
  | done a => exact h
  | ask r next ih =>
    intro t ht hi
    obtain ⟨hi', hn⟩ := h t ht hi
    exact ⟨hi', ih _ hn⟩

theorem Meets.pure {Q : α → Session → Prop} {a : α} {s : Session}
    (h : ∀ s', s ≤ s' → Inv s' → Q a s') : (Pure.pure a : Action α).Meets Inv Q s :=
  h

/-- A single request. -/
theorem Meets.request {r : Request} {Q : r.Answer → Session → Prop} {s : Session}
    (h : ∀ s', s ≤ s' → Inv s' → Inv (s'.serve r).2 ∧
      ∀ t, (s'.serve r).2 ≤ t → Inv t → Q (s'.serve r).1 t) :
    (Action.request r).Meets Inv Q s := by
  intro s' hs hi
  exact h s' hs hi

/-! ## §4. Runs -/

/-- An action that is alone on its session keeps the invariant and reaches its
    postcondition. -/
theorem Meets.run {Q : α → Session → Prop} {x : Action α} {s : Session} (h : x.Meets Inv Q s)
    (hs : Inv s) : Inv (x.run s).2 ∧ Q (x.run s).1 (x.run s).2 := by
  induction x generalizing s with
  -- Nobody else uses the session, so each request finds it as the last one left it.
  | done a => exact ⟨hs, h s le_rfl hs⟩
  | ask r next ih =>
    obtain ⟨hi, hn⟩ := h s le_rfl hs
    exact ih _ hn hi

end Action

/-- The sessions have the same caches, and among their messages the same `shown` ones. -/
structure Session.Same (shown : Log.Entry → Bool) (s t : Session) : Prop where
  names : t.names = s.names
  mappings : t.mappings = s.mappings
  log : t.log.filter shown = s.log.filter shown

namespace Session.Same

variable {shown : Log.Entry → Bool} {s t u : Session}

theorem refl : Same shown s s :=
  ⟨rfl, rfl, rfl⟩

theorem symm (h : Same shown s t) : Same shown t s :=
  ⟨h.names.symm, h.mappings.symm, h.log.symm⟩

theorem trans (h : Same shown s t) (h' : Same shown t u) : Same shown s u :=
  ⟨h'.names.trans h.names, h'.mappings.trans h.mappings, h'.log.trans h.log⟩

/-- A message that is not shown makes no difference. -/
theorem report (h : Same shown s t) {e : Log.Entry} (he : shown e = false) :
    Same shown s (t.serve (.report e)).2 :=
  ⟨h.names, h.mappings, by simp [serve, List.filter_append, he, h.log]⟩

end Session.Same

/-- An action sees nothing of the messages before it, so it answers alike and goes on alike in
    sessions that differ in messages only. -/
theorem Action.run_same {α : Type} {shown : Log.Entry → Bool} (x : Action α) {s t : Session}
    (h : s.Same shown t) : (x.run t).1 = (x.run s).1 ∧ (x.run s).2.Same shown (x.run t).2 := by
  induction x generalizing s t with
  | done a => exact ⟨rfl, h⟩
  | ask r next ih =>
    obtain ⟨names, mappings, log⟩ := s
    obtain ⟨names', mappings', log'⟩ := t
    obtain rfl : names' = names := h.names
    obtain rfl : mappings' = mappings := h.mappings
    cases r with
    | name r => exact ih _ ⟨rfl, rfl, h.log⟩
    | mapping r => exact ih _ ⟨rfl, rfl, h.log⟩
    | report e =>
      refine ih _ ⟨rfl, rfl, ?_⟩
      have hlog : log'.filter shown = log.filter shown := h.log
      simp [List.filter_append, hlog]

end EmmyStubs
