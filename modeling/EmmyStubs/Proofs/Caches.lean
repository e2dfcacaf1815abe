import EmmyStubs.Proofs.Sharing
import EmmyStubs.Proofs.Uncached

/-! # What the caches hold

    The invariant of a session on which a graph is mapped, at every moment of every mapping:

    * **`Session.Faithful`**: what is held for a type of the graph is its name, or its expression
      without a cache, and a type on a cycle of dependencies is not held at all.
    * **`Session.Accounted`**: only types that some roots lead to are held, and none without all
      that it leads to, as far as it may be held.
    * **`Session.Untouched`**: of types that are not in the graph, what was held is held.
    * **`Session.Valid`**: all three, the second where the cache of mappings began empty.

    Every request that a mapping makes keeps it (§2), so names can be asked for in any valid
    session (§3).
-/

namespace EmmyStubs

namespace Session

/-! ## §1. The invariant -/

/-- The caches hold nothing wrong about the types of the graph. -/
structure Faithful (g : Graph) (o : Options) (s : Session) : Prop where
  names : ∀ d name, g.Has d → s.names.held? d.identity = some name → name = g.qualifiedName d
  acyclic : ∀ t e, g.Knows t → s.mappings.held? t = some e → ¬g.Cyclic o t
  value : ∀ t e, g.Knows t → s.mappings.held? t = some e → e = g.expr o t

/-- The cache holds `t` and all that `t` leads to, as far as it lies on no cycle. -/
def Holds (s : Session) (t : Identity) : Prop :=
  (s.mappings.held? t).isSome

/-- The keys of the cache of mappings come from the roots and are closed under dependencies. -/
structure Accounted (g : Graph) (o : Options) (roots : Identity → Prop) (s : Session) :
    Prop where
  known : ∀ t, s.Holds t → g.Knows t
  reached : ∀ t, s.Holds t → ∃ r, roots r ∧ g.Leads o r t
  closed : ∀ t, s.Holds t → ∀ u, g.Leads o t u → g.Knows u → ¬g.Cyclic o u → s.Holds u

/-- Of types that are not in the graph, the caches hold what they held before. -/
structure Untouched (g : Graph) (before s : Session) : Prop where
  names : ∀ t, ¬g.Knows t → s.names.held? t = before.names.held? t
  mappings : ∀ t, ¬g.Knows t → s.mappings.held? t = before.mappings.held? t

/-- The invariant of a session that was `before` when the first type was mapped.  `counted` says
    that its cache of mappings was empty then. -/
structure Valid (g : Graph) (o : Options) (before : Session) (counted : Prop)
    (roots : Identity → Prop) (s : Session) : Prop where
  faithful : s.Faithful g o
  accounted : counted → s.Accounted g o roots
  untouched : Untouched g before s

variable {g : Graph} {o : Options} {counted : Prop} {roots : Identity → Prop}
  {before s s' : Session}

theorem Holds.of_le {t : Identity} (h : s.Holds t) (hs : s ≤ s') : s'.Holds t :=
  isSome_mappings_of_le hs h

theorem holds_of_held? {t : Identity} {e : TypeExpr} (h : s.mappings.held? t = some e) :
    s.Holds t := by
  rw [Holds, h]
  rfl

theorem untouched_self : Untouched g s s :=
  ⟨fun _ _ => rfl, fun _ _ => rfl⟩

/-- The caches of a new session are empty. -/
theorem faithful_start : start.Faithful g o where
  names := fun _ _ _ h => by simp [start] at h
  acyclic := fun _ _ _ h => by simp [start] at h
  value := fun _ _ _ h => by simp [start] at h

theorem valid_start : Valid g o start counted roots start where
  faithful := faithful_start
  accounted := fun _ =>
    { known := fun _ h => by simp [start, Holds] at h
      reached := fun _ h => by simp [start, Holds] at h
      closed := fun _ h => by simp [start, Holds] at h }
  untouched := untouched_self

/-- A session on which other graphs were mapped may hold anything about types that are not in
    this one. -/
theorem Faithful.valid (h : s.Faithful g o) : Valid g o s False roots s where
  faithful := h
  accounted := fun hc => hc.elim
  untouched := untouched_self

/-- More roots may be allowed. -/
theorem Valid.of_roots {roots' : Identity → Prop} (h : Valid g o before counted roots s)
    (hroots : ∀ r, roots r → roots' r) : Valid g o before counted roots' s where
  faithful := h.faithful
  accounted := fun hc =>
    { known := (h.accounted hc).known
      reached := fun t ht => by
        obtain ⟨r, hr, hrt⟩ := (h.accounted hc).reached t ht
        exact ⟨r, hroots r hr, hrt⟩
      closed := (h.accounted hc).closed }
  untouched := h.untouched

/-- What `roots` lead to is held, unless it lies on a cycle. -/
def Complete (g : Graph) (o : Options) (roots : Identity → Prop) (s : Session) : Prop :=
  ∀ r, roots r → ∀ t, g.Leads o r t → g.Knows t → ¬g.Cyclic o t → s.Holds t

/-- The keys of a valid and complete session are those that the roots lead to on no cycle. -/
theorem Valid.held?_iff
    (h : Valid g o before True roots s) (hs : s.Complete g o roots) (t : Identity) (e : TypeExpr) :
    s.mappings.held? t = some e ↔
      g.Knows t ∧ (∃ r, roots r ∧ g.Leads o r t) ∧ ¬g.Cyclic o t ∧ e = g.expr o t := by
  have hcount := h.accounted trivial
  constructor
  · intro he
    have ht := holds_of_held? he
    have hknows := hcount.known t ht
    exact ⟨hknows, hcount.reached t ht, h.faithful.acyclic t e hknows he,
      h.faithful.value t e hknows he⟩
  · rintro ⟨hknows, ⟨r, hr, hleads⟩, hcyc, rfl⟩
    -- Completeness gives an entry, and faithfulness says which.
    obtain ⟨e, he⟩ := Option.isSome_iff_exists.1 (hs r hr t hleads hknows hcyc)
    rw [he, h.faithful.value t e hknows he]

/-! ## §2. Requests keep it -/

/-- The invariant looks at nothing but what is held. -/
theorem Faithful.congr (h : s.Faithful g o)
    (hnames : ∀ k, s'.names.held? k = s.names.held? k)
    (hmappings : ∀ k, s'.mappings.held? k = s.mappings.held? k) : s'.Faithful g o where
  names := fun d name hd hn => h.names d name hd (hnames _ ▸ hn)
  acyclic := fun t e ht he => h.acyclic t e ht (hmappings _ ▸ he)
  value := fun t e ht he => h.value t e ht (hmappings _ ▸ he)

theorem Valid.congr (h : Valid g o before counted roots s)
    (hnames : ∀ k, s'.names.held? k = s.names.held? k)
    (hmappings : ∀ k, s'.mappings.held? k = s.mappings.held? k) :
    Valid g o before counted roots s' where
  faithful := h.faithful.congr hnames hmappings
  accounted := fun hc => by
    have hh : ∀ t, s'.Holds t ↔ s.Holds t := fun t => by rw [Holds, hmappings, Holds]
    exact
      { known := fun t ht => (h.accounted hc).known t ((hh t).1 ht)
        reached := fun t ht => (h.accounted hc).reached t ((hh t).1 ht)
        closed := fun t ht u htu hk hu =>
          (hh u).2 ((h.accounted hc).closed t ((hh t).1 ht) u htu hk hu) }
  untouched :=
    { names := fun t ht => (hnames t).trans (h.untouched.names t ht)
      mappings := fun t ht => (hmappings t).trans (h.untouched.mappings t ht) }

theorem Valid.name_get (h : Valid g o before counted roots s) (key : Identity) :
    Valid g o before counted roots (s.serve (.name (.get key))).2 :=
  h.congr (fun k => s.names.held?_get key k) fun _ => rfl

theorem Valid.name_miss (h : Valid g o before counted roots s) :
    Valid g o before counted roots (s.serve (.name .miss)).2 :=
  h.congr (fun _ => rfl) fun _ => rfl

theorem Valid.mapping_get (h : Valid g o before counted roots s) (key : Identity) :
    Valid g o before counted roots (s.serve (.mapping (.get key))).2 :=
  h.congr (fun _ => rfl) fun k => s.mappings.held?_get key k

theorem Valid.report (h : Valid g o before counted roots s) (e : Log.Entry) :
    Valid g o before counted roots (s.serve (.report e)).2 :=
  h.congr (fun _ => rfl) fun _ => rfl

/-- A type of the graph may be stored under its qualified name. -/
theorem Valid.name_store (h : Valid g o before counted roots s) {d : Descriptor} (hd : g.Has d) :
    Valid g o before counted roots (s.serve (.name (.store d.identity (g.qualifiedName d)))).2 where
  faithful :=
    { names := by
        intro d' name hd' hn
        rw [serve, Cache.serve, Cache.held?_store] at hn
        split at hn
        · next heq =>
          -- An identity has one descriptor in the graph.
          have : d' = d := by
            rw [Graph.Has, heq.2, hd] at hd'
            exact (Option.some.inj hd').symm
          rw [this]
          exact (Option.some.inj hn).symm
        · exact h.faithful.names d' name hd' hn
      acyclic := h.faithful.acyclic
      value := h.faithful.value }
  accounted := fun hc =>
    { known := (h.accounted hc).known
      reached := (h.accounted hc).reached
      closed := (h.accounted hc).closed }
  untouched :=
    { names := by
        intro t ht
        -- A type outside of the graph is not `d`.
        have hne : t ≠ d.identity := fun heq => ht (heq ▸ Option.isSome_of_eq_some hd)
        rw [serve, Cache.serve, Cache.held?_store, if_neg fun heq => hne heq.2]
        exact h.untouched.names t ht
      mappings := h.untouched.mappings }

/-- A type on no cycle may be stored with its expression, behind all that it leads to. -/
theorem Valid.mapping_store (h : Valid g o before counted roots s) {id : Identity}
    (hid : g.Knows id) (hcyc : ¬g.Cyclic o id)
    (hcount : counted → (∃ r, roots r ∧ g.Leads o r id) ∧
      ∀ u, g.Leads o id u → u ≠ id → g.Knows u → ¬g.Cyclic o u → s.Holds u) :
    Valid g o before counted roots (s.serve (.mapping (.store id (g.expr o id)))).2 := by
  -- Of what is held afterwards only `id` is new.
  have hheld : ∀ t e, (s.serve (.mapping (.store id (g.expr o id)))).2.mappings.held? t = some e →
      t = id ∧ e = g.expr o id ∨ s.mappings.held? t = some e := by
    intro t e ht
    rw [serve, Cache.serve, Cache.held?_store] at ht
    split at ht
    · next heq => exact .inl ⟨heq.2, (Option.some.inj ht).symm⟩
    · exact .inr ht
  have hgrow := le_serve s (.mapping (.store id (g.expr o id)))
  have hstored : (s.serve (.mapping (.store id (g.expr o id)))).2.Holds id :=
    holds_of_held? (s.mappings.store_answer id (g.expr o id))
  have hold : ∀ t, (s.serve (.mapping (.store id (g.expr o id)))).2.Holds t →
      t = id ∨ s.Holds t := by
    intro t ht
    obtain ⟨e, he⟩ := Option.isSome_iff_exists.1 ht
    exact (hheld t e he).imp And.left holds_of_held?
  exact
    { faithful :=
        { names := h.faithful.names
          acyclic := by
            intro t e ht he
            rcases hheld t e he with ⟨rfl, -⟩ | he
            · exact hcyc
            · exact h.faithful.acyclic t e ht he
          value := by
            intro t e ht he
            rcases hheld t e he with ⟨rfl, rfl⟩ | he
            · rfl
            · exact h.faithful.value t e ht he }
      accounted := fun hc =>
        { known := by
            intro t ht
            rcases hold t ht with rfl | ht
            · exact hid
            · exact (h.accounted hc).known t ht
          reached := by
            intro t ht
            rcases hold t ht with rfl | ht
            · exact (hcount hc).1
            · exact (h.accounted hc).reached t ht
          closed := by
            intro t ht u htu hk hu
            rcases hold t ht with rfl | ht
            · by_cases hut : u = t
              · exact hut ▸ hstored
              · exact ((hcount hc).2 u htu hut hk hu).of_le hgrow
            · exact ((h.accounted hc).closed t ht u htu hk hu).of_le hgrow }
      untouched :=
        { names := h.untouched.names
          mappings := by
            intro t ht
            have hne : t ≠ id := fun heq => ht (heq ▸ hid)
            rw [serve, Cache.serve, Cache.held?_store, if_neg fun heq => hne heq.2]
            exact h.untouched.mappings t ht } }

end Session

/-! ## §3. Names -/

variable {g : Graph} {o : Options} {counted : Prop} {roots : Identity → Prop}
  {before s : Session}

/-- In any valid session a type of the graph gets its qualified name. -/
theorem resolve_meets {d : Descriptor} (hd : g.Has d) :
    (resolve g d).Meets (Session.Valid g o before counted roots)
      (fun name _ => name = g.qualifiedName d) s := by
  refine Action.Meets.bind (Action.Meets.request fun s₁ _ h₁ => ⟨h₁.name_get _, ?_⟩)
  intro s₂ _ _
  rw [Session.serve_name_get]
  cases hheld : s₁.names.held? d.identity with
  | some name => exact Action.Meets.pure fun _ _ _ => h₁.faithful.names d name hd hheld
  | none =>
    -- Others may have stored a name since; then that one is answered, but it is the same.
    refine Action.Meets.bind (Action.Meets.request fun s₃ _ h₃ => ⟨h₃.name_miss, fun s₄ _ _ => ?_⟩)
    refine Action.Meets.request fun s₅ _ h₅ => ?_
    have hstore := h₅.name_store hd
    exact ⟨hstore, fun s₆ _ _ => hstore.faithful.names d _ hd (s₅.names.store_answer _ _)⟩

/-- A message changes nothing that the invariant looks at. -/
theorem report_meets {level : Log.Level} {source : Log.Source} {message : String}
    {Q : Unit → Session → Prop}
    (h : ∀ s', s ≤ s' → Session.Valid g o before counted roots s' → Q () s') :
    (Action.report level source message).Meets (Session.Valid g o before counted roots) Q s := by
  refine Action.Meets.request fun s₁ h₁ hi => ⟨hi.report _, fun s₂ h₂ hi₂ => h s₂ ?_ hi₂⟩
  exact le_trans h₁ (le_trans (Session.le_serve s₁ _) h₂)

end EmmyStubs
