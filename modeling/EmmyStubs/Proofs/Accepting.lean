import EmmyStubs.Proofs.Loading
import EmmyStubs.Proofs.Outcomes

/-! # Settings that are accepted

    A document that is read as settings is a valid one, whatever values stand in it, and the
    settings say what it says.  There is a third way for reading to end: an integer that is to be
    turned into a text may have too many digits for it.

    * **`Reading.Ends`**: how reading a part of the settings may end.
    * **`Spells`**, **`Lists`**: the texts that a value stands for.
    * **`Consulted`**, **`Overlong`**: the values that are turned into texts, and those of them for
      which there is none.
    * **`Acceptable`**: what a document has to be like.
    * **`ReadFrom`**: settings that are valid and agree with a document; in particular their style
      is one that types can be mapped in.
    * **`load_valid`**: a document is refused unless it is acceptable, and is read into such
      settings, unless it has an overlong integer in it.
-/

namespace EmmyStubs.Settings

open EmmyStubs.Files EmmyStubs.Run

variable {root : Path} {v : Value} {t : String}

/-! ## §1. How reading ends -/

namespace Reading

variable {α β : Type} {x : Reading α} {f : α → Reading β} {overlong overlong' faulty faulty' : Prop}
  {Good Good' : α → Prop} {Good₂ : β → Prop}

/-- Reading ends the program over an integer that has no text, or with a fault of the settings, or
    it gives something good. -/
def Ends (x : Reading α) (overlong faulty : Prop) (Good : α → Prop) : Prop :=
  (x.run = .error (.excess .writing) ∧ overlong) ∨
    (∃ e, x.run = .ok (.error e) ∧ faulty) ∨ ∃ a, x.run = .ok (.ok a) ∧ Good a

theorem ends_pure {a : α} (h : Good a) : (pure a : Reading α).Ends overlong faulty Good :=
  .inr (.inr ⟨a, rfl, h⟩)

theorem ends_throw {e : SettingsError} (h : faulty) :
    (throw e : Reading α).Ends overlong faulty Good :=
  .inr (.inl ⟨e, rfl, h⟩)

theorem ends_abort (h : overlong) :
    (Reading.abort (.excess .writing) : Reading α).Ends overlong faulty Good :=
  .inl ⟨rfl, h⟩

theorem Ends.imp (h : x.Ends overlong faulty Good) (hoverlong : overlong → overlong')
    (hfaulty : faulty → faulty') (hgood : ∀ a, Good a → Good' a) :
    x.Ends overlong' faulty' Good' := by
  rcases h with ⟨hx, h⟩ | ⟨e, hx, h⟩ | ⟨a, hx, h⟩
  · exact .inl ⟨hx, hoverlong h⟩
  · exact .inr (.inl ⟨e, hx, hfaulty h⟩)
  · exact .inr (.inr ⟨a, hx, hgood a h⟩)

/-- What is read next is not read where the program or the settings end before. -/
theorem Ends.bind (hx : x.Ends overlong faulty Good)
    (hf : ∀ a, Good a → (f a).Ends overlong faulty Good₂) :
    (x >>= f).Ends overlong faulty Good₂ := by
  have hrun : (x >>= f).run = x.run >>= ExceptT.bindCont f := rfl
  rcases hx with ⟨hx, h⟩ | ⟨e, hx, h⟩ | ⟨a, hx, h⟩
  · exact .inl ⟨by rw [hrun, hx]; rfl, h⟩
  · exact .inr (.inl ⟨e, by rw [hrun, hx]; rfl, h⟩)
  · have hnext : (x >>= f).run = (f a).run := by rw [hrun, hx]; rfl
    unfold Ends
    rw [hnext]
    exact hf a h

/-- A function of what was read. -/
theorem Ends.map {k : α → β} (hx : x.Ends overlong faulty Good) (hk : ∀ a, Good a → Good₂ (k a)) :
    (x >>= fun a => pure (k a)).Ends overlong faulty Good₂ :=
  hx.bind fun a ha => ends_pure (hk a ha)

end Reading

open Reading

/-! ## §2. Texts in a document -/

/-- An integer that has too many digits for a text. -/
def Overlong (v : Value) : Prop :=
  ∃ n, v = .int n ∧ Number.isWritable n = false

/-- A value that can stand for a text: a text, or a number. -/
inductive Spells : Value → String → Prop
  | text (s : String) : Spells (.str s) s
  | integer (n : Int) (h : Number.isWritable n = true) : Spells (.int n) (toString n)
  | number (x : Number.Binary) : Spells (.float x) (Value.float x).text

/-- The items of a value that is a list. -/
def Item (v x : Value) : Prop :=
  ∃ items, v.opened = .list items ∧ x ∈ items

/-- A value that can stand for a list has a text in it.  A text stands for the list of it alone,
    and octets stand for numbers. -/
inductive Lists (v : Value) : String → Prop
  | alone {s : String} (h : v.opened = .str s) : Lists v s
  | item {x : Value} {s : String} (hx : Item v x) (hs : Spells x s) : Lists v s
  | octet {bytes : List UInt8} {b : UInt8} (h : v.opened = .octets bytes) (hb : b ∈ bytes) :
      Lists v (Nat.repr b.toNat)

theorem text?_ends (v : Value) :
    (text? v).Ends (Overlong v) False fun t => (∀ s, t = some s ↔ Spells v s) ∧ ¬Overlong v := by
  cases v with
  | str s =>
    refine ends_pure ⟨fun t => ⟨?_, ?_⟩, ?_⟩
    · rintro ⟨⟩
      exact .text s
    · rintro ⟨⟩
      rfl
    · rintro ⟨n, ⟨⟩, -⟩
  | int n =>
    rw [text?]
    cases hdigits : Number.decimalText? n with
    | some digits =>
      obtain ⟨hn, rfl⟩ := Number.decimalText?_eq_some_iff.1 hdigits
      refine ends_pure ⟨fun t => ⟨?_, ?_⟩, ?_⟩
      · rintro ⟨⟩
        exact .integer n hn
      · rintro ⟨⟩
        rfl
      · rintro ⟨m, ⟨⟩, hm⟩
        rw [hn] at hm
        cases hm
    | none => exact ends_abort ⟨n, rfl, Number.decimalText?_eq_none_iff.1 hdigits⟩
  | float x =>
    refine ends_pure ⟨fun t => ⟨?_, ?_⟩, ?_⟩
    · rintro ⟨⟩
      exact .number x
    · rintro ⟨⟩
      rfl
    · rintro ⟨n, ⟨⟩, -⟩
  | _ =>
    refine ends_pure ⟨fun t => ⟨?_, ?_⟩, ?_⟩
    · rintro ⟨⟩
    · rintro ⟨⟩
    · rintro ⟨n, ⟨⟩, -⟩

theorem filled?_ends (v : Value) :
    (filled? v).Ends (Overlong v) False fun t =>
      (∀ s, t = some s ↔ s ≠ "" ∧ Spells v s) ∧ ¬Overlong v := by
  refine (text?_ends v).map fun t ht => ⟨fun s => ?_, ht.2⟩
  rw [Option.filter_eq_some_iff, ht.1, and_comm, decide_eq_true_iff]

theorem itemTexts_ends (vs : List Value) :
    (itemTexts vs).Ends (∃ x ∈ vs, Overlong x) False fun ts =>
      (∀ s, s ∈ ts ↔ ∃ x ∈ vs, Spells x s) ∧ ∀ x ∈ vs, ¬Overlong x := by
  induction vs with
  | nil => exact ends_pure ⟨by simp, by simp⟩
  | cons v vs ih =>
    refine ((text?_ends v).imp ?_ id fun _ h => h).bind fun t ht => ?_
    · exact fun h => ⟨v, List.mem_cons_self, h⟩
    refine (ih.imp ?_ id fun _ h => h).map fun ts hts => ⟨fun s => ?_, ?_⟩
    · exact fun ⟨x, hx, h⟩ => ⟨x, List.mem_cons_of_mem v hx, h⟩
    · rw [List.mem_append, Option.mem_toList, ht.1, hts.1, List.exists_mem_cons_iff]
    · exact List.forall_mem_cons.2 ⟨ht.2, hts.2⟩

theorem texts_ends (v : Value) :
    (texts v).Ends (∃ x, Item v x ∧ Overlong x) False fun ts =>
      (∀ s, s ∈ ts ↔ Lists v s) ∧ ∀ x, Item v x → ¬Overlong x := by
  unfold texts
  split
  · next s hs =>
    refine ends_pure ⟨fun t => ⟨?_, ?_⟩, ?_⟩
    · intro ht
      exact List.mem_singleton.1 ht ▸ .alone hs
    · rintro (hs' | ⟨⟨items, hitems, -⟩, -⟩ | ⟨hbytes, -⟩) <;> simp_all
    · rintro x ⟨items, hitems, -⟩
      rw [hs] at hitems
      cases hitems
  · next items hitems =>
    have hitem : ∀ {x}, Item v x ↔ x ∈ items := by
      intro x
      constructor
      · rintro ⟨items', hitems', hx⟩
        rw [hitems] at hitems'
        cases hitems'
        exact hx
      · exact fun hx => ⟨items, hitems, hx⟩
    refine (itemTexts_ends items).imp ?_ id fun ts hts => ⟨fun t => ?_, ?_⟩
    · rintro ⟨x, hx, hlong⟩
      exact ⟨x, hitem.2 hx, hlong⟩
    · rw [hts.1]
      constructor
      · rintro ⟨x, hx, hs⟩
        exact .item (hitem.2 hx) hs
      · rintro (hs' | ⟨hx, hs⟩ | ⟨hbytes, -⟩)
        · simp_all
        · exact ⟨_, hitem.1 hx, hs⟩
        · simp_all
    · exact fun x hx => hts.2 x (hitem.1 hx)
  · next bytes hbytes =>
    refine ends_pure ⟨fun t => ⟨?_, ?_⟩, ?_⟩
    · intro ht
      obtain ⟨b, hb, rfl⟩ := List.mem_map.1 ht
      exact .octet hbytes hb
    · rintro (hs' | ⟨⟨items, hitems, -⟩, -⟩ | ⟨hbytes', hb⟩)
      · simp_all
      · simp_all
      · rw [hbytes] at hbytes'
        cases hbytes'
        exact List.mem_map_of_mem hb
    · rintro x ⟨items, hitems, -⟩
      rw [hbytes] at hitems
      cases hitems
  · next hstr hlist hoctets =>
    refine ends_pure ⟨fun t => ⟨fun ht => absurd ht (by simp), ?_⟩, ?_⟩
    · rintro (hs' | ⟨⟨items, hitems, -⟩, -⟩ | ⟨hbytes', hb⟩)
      · exact absurd hs' (hstr _)
      · exact absurd hitems (hlist _)
      · exact absurd hbytes' (hoctets _)
    · rintro x ⟨items, hitems, -⟩
      exact absurd hitems (hlist _)

/-! ## §3. Entries -/

/-- An entry for an assembly names a file. -/
def HasPath (entry : Value) : Prop :=
  ∃ path, path ≠ "" ∧ Spells (Value.field (entries entry) "path") path

/-- The values of an entry that are turned into texts. -/
inductive ConsultedIn (entry : Value) : Value → Prop
  | path : ConsultedIn entry (Value.field (entries entry) "path")
  | filter {x : Value} (hx : Item (Value.field (entries entry) "types") x) : ConsultedIn entry x

/-- An assembly that is what an entry says.  With no filters given, there is the one that lets
    every type pass. -/
structure Describes (root : Path) (entry : Value) (a : Assembly) : Prop where
  path : ∃ path, path ≠ "" ∧ Spells (Value.field (entries entry) "path") path ∧
    a.path = root.child path
  filters_ne : a.filters ≠ []
  filters : (∀ f, f ∈ a.filters ↔ Lists (Value.field (entries entry) "types") f) ∨
    (∀ f, ¬Lists (Value.field (entries entry) "types") f) ∧ a.filters = ["*"]

/-- An entry that names a file, with no text in it that is too long. -/
structure Legible (entry : Value) : Prop where
  hasPath : HasPath entry
  short : ∀ x, ConsultedIn entry x → ¬Overlong x

theorem assembly_ends (root : Path) (index : Nat) (entry : Value) :
    (assembly root index entry).Ends (∃ x, ConsultedIn entry x ∧ Overlong x) (¬HasPath entry)
      fun a => Describes root entry a ∧ Legible entry := by
  unfold assembly
  dsimp only
  refine ((filled?_ends _).imp (fun h => ⟨_, .path, h⟩) False.elim fun _ h => h).bind fun t ht => ?_
  cases t with
  | none =>
    refine ends_throw ?_
    rintro ⟨path, hpath⟩
    cases (ht.1 path).2 hpath
  | some path =>
    obtain ⟨hne, hspells⟩ := (ht.1 path).1 rfl
    refine ((texts_ends _).imp ?_ False.elim fun _ h => h).bind fun filters hfilters => ?_
    · rintro ⟨x, hx, hlong⟩
      exact ⟨x, .filter hx, hlong⟩
    have hlegible : Legible entry := by
      refine ⟨⟨path, hne, hspells⟩, ?_⟩
      rintro x (_ | hx)
      · exact ht.2
      · exact hfilters.2 x hx
    cases filters with
    | nil =>
      -- No filter is given, and the one that passes all is put in.
      have hno : ∀ f, ¬Lists (Value.field (entries entry) "types") f := by
        intro f hf
        cases (hfilters.1 f).2 hf
      exact ends_pure
        ⟨⟨⟨path, hne, hspells, rfl⟩, List.cons_ne_nil _ _, .inr ⟨hno, rfl⟩⟩, hlegible⟩
    | cons f fs =>
      exact ends_pure
        ⟨⟨⟨path, hne, hspells, rfl⟩, List.cons_ne_nil _ _, .inl hfilters.1⟩, hlegible⟩

/-- There is one assembly for each entry, in order. -/
theorem assembliesFrom_ends (root : Path) (index : Nat) (vs : List Value) :
    (assembliesFrom root index vs).Ends (∃ entry ∈ vs, ∃ x, ConsultedIn entry x ∧ Overlong x)
      (∃ entry ∈ vs, ¬HasPath entry) fun as =>
        List.Forall₂ (Describes root) vs as ∧ ∀ entry ∈ vs, Legible entry := by
  induction vs generalizing index with
  | nil => exact ends_pure ⟨.nil, by simp⟩
  | cons v vs ih =>
    refine ((assembly_ends root index v).imp ?_ ?_ fun _ h => h).bind fun a ha => ?_
    · exact fun h => ⟨v, List.mem_cons_self, h⟩
    · exact fun h => ⟨v, List.mem_cons_self, h⟩
    refine ((ih (index + 1)).imp ?_ ?_ fun _ h => h).map fun as has => ?_
    · exact fun ⟨entry, hentry, h⟩ => ⟨entry, List.mem_cons_of_mem v hentry, h⟩
    · exact fun ⟨entry, hentry, h⟩ => ⟨entry, List.mem_cons_of_mem v hentry, h⟩
    exact ⟨.cons ha.1 has.1, List.forall_mem_cons.2 ⟨ha.2, has.2⟩⟩

/-! ## §4. Documents -/

/-- What a document says about one setting; null where it does not say anything. -/
def given (v : Value) (key : String) : Value :=
  Value.field (entries v) key

/-- The value that stands for a list or a dictionary shape. -/
def shape (v : Value) (key : String) : Value :=
  Value.field (entries (given v "generic_shapes")) key

/-- The values of a document that are turned into texts. -/
inductive Consulted (v : Value) : Value → Prop
  | entry {items : List Value} {entry x : Value}
      (hitems : (given v "assemblies").items? = some items) (hentry : entry ∈ items)
      (hx : ConsultedIn entry x) : Consulted v x
  | setting {key : String} (hkey : key ∈ ["output_dir", "templates_dir", "enumerable_style"]) :
      Consulted v (given v key)
  | shape {key : String} {x : Value} (hkey : key ∈ ["list", "dictionary"])
      (hx : Item (shape v key) x) : Consulted v x

/-- A document that can be read as settings.  A value that counts as false is taken for an empty
    map. -/
structure Acceptable (v : Value) : Prop where
  isMap : v.truthy = true → ∃ es, v.entries? = some es
  assemblies : given v "assemblies" = .null ∨
    ∃ items, (given v "assemblies").items? = some items ∧ ∀ entry ∈ items, HasPath entry
  workers : ∀ n, integer? (given v "workers") = some n → 1 ≤ n
  style : ∀ word, Spells (given v "enumerable_style") word →
    word = "" ∨ ∃ style : EnumerableStyle, style.name = word

/-- Valid settings that say what a document says. -/
structure ReadFrom (root : Path) (v : Value) (s : Settings) : Prop where
  place : s.root = root
  assemblies : List.Forall₂ (Describes root) ((given v "assemblies").items?.getD []) s.assemblies
  workers_pos : 1 ≤ s.workers
  workers : ∀ n, integer? (given v "workers") = some n → (s.workers : Int) = n
  workers_default : integer? (given v "workers") = none → s.workers = 4
  style : ∀ word, Spells (given v "enumerable_style") word → word ≠ "" →
    s.options.style.name = word
  listShapes : ∀ t, t ∈ s.options.listShapes ↔ Lists (shape v "list") t
  dictionaryShapes : ∀ t, t ∈ s.options.dictionaryShapes ↔ Lists (shape v "dictionary") t
  mapped : Options.named s.options.style.name s.options.listShapes s.options.dictionaryShapes
    s.options.flatten = .ok s.options

/-- The name of a style is one that types can be mapped in. -/
theorem named_name (o : Options) :
    Options.named o.style.name o.listShapes o.dictionaryShapes o.flatten = .ok o := by
  rw [Options.named, EnumerableStyle.ofName?_eq_some_iff.2 rfl]
  rfl

/-- Nothing is said about any setting in a value that counts as false. -/
theorem entries_of_not_truthy (h : v.truthy = false) : entries v = [] := by
  cases v with
  | map es =>
    have hempty : es.isEmpty = true := by simpa [Value.truthy] using h
    rw [List.isEmpty_iff.1 hempty]
    rfl
  | knot table i => cases h
  | _ => rfl

/-- A document is refused for not being a map, or its entries are read. -/
theorem ofValue_eq (root : Path) (fileName : String) (v : Value) :
    ofValue root fileName v =
      if v.truthy = true ∧ v.entries? = none then throw (.rootNotMap fileName)
      else ofEntries root (entries v) := by
  unfold ofValue
  by_cases htruthy : v.truthy = true
  · rw [if_pos htruthy]
    cases hentries : v.entries? with
    | none => rw [if_pos ⟨htruthy, rfl⟩]
    | some es =>
      have hes : entries v = es := by rw [entries, hentries]; rfl
      rw [if_neg (by simp), hes]
  · rw [if_neg htruthy, if_neg (fun h => htruthy h.1),
      entries_of_not_truthy (Bool.eq_false_iff.2 htruthy)]

/-! ## §5. Settings one by one -/

variable {value : Value}

theorem assembliesOf_ends (root : Path) (value : Value) :
    (assembliesOf root value).Ends
      (∃ items, value.items? = some items ∧
        ∃ entry ∈ items, ∃ x, ConsultedIn entry x ∧ Overlong x)
      (¬(value = .null ∨ ∃ items, value.items? = some items ∧ ∀ entry ∈ items, HasPath entry))
      fun as => List.Forall₂ (Describes root) (value.items?.getD []) as ∧
        (value = .null ∨ ∃ items, value.items? = some items) ∧
        ∀ items, value.items? = some items → ∀ entry ∈ items, Legible entry := by
  unfold assembliesOf
  cases hitems : value.items? with
  | some items =>
    refine (assembliesFrom_ends root 0 items).imp (fun h => ⟨items, rfl, h⟩) ?_
      fun as has => ⟨has.1, .inr ⟨items, rfl⟩, ?_⟩
    rintro ⟨entry, hentry, hno⟩ (rfl | ⟨items', hitems', hall⟩)
    · cases hitems
    · cases hitems'
      exact hno (hall entry hentry)
    · intro items' hitems'
      cases hitems'
      exact has.2
  | none =>
    dsimp only
    split
    · next hnull =>
      have hvalue : value = .null := by
        cases value with
        | null => rfl
        | _ => cases hnull
      exact ends_pure ⟨.nil, .inl hvalue, fun items h => by cases h⟩
    · next hnull =>
      refine ends_throw ?_
      rintro (rfl | ⟨items, hsome, -⟩)
      · exact hnull rfl
      · cases hsome

theorem workersOf_ends (value : Value) {overlong : Prop} :
    (workersOf value).Ends overlong (¬∀ i, integer? value = some i → 1 ≤ i) fun n =>
      1 ≤ n ∧ (∀ i, integer? value = some i → (n : Int) = i) ∧
        (integer? value = none → n = 4) := by
  unfold workersOf
  split
  · next hnone =>
    refine ends_pure ⟨by omega, ?_, fun _ => rfl⟩
    intro i hi
    rw [hnone] at hi
    cases hi
  · next n hsome =>
    split
    · next hsmall =>
      refine ends_throw ?_
      intro hall
      have hpos := hall n hsome
      omega
    · next hpos =>
      refine ends_pure ⟨by omega, ?_, ?_⟩
      · intro i hi
        rw [hsome] at hi
        cases hi
        omega
      · intro hnone
        rw [hsome] at hnone
        cases hnone

theorem styleOf_ends (value : Value) :
    (styleOf value).Ends (Overlong value)
      (¬∀ word, Spells value word → word = "" ∨ ∃ style : EnumerableStyle, style.name = word)
      fun style => (∀ word, Spells value word → word ≠ "" → style.name = word) ∧
        ¬Overlong value := by
  refine ((filled?_ends value).imp id False.elim fun _ h => h).bind fun t ht => ?_
  split
  · next style hstyle =>
    refine ends_pure ⟨?_, ht.2⟩
    intro word hspells hne
    rw [(ht.1 word).2 ⟨hne, hspells⟩] at hstyle
    exact EnumerableStyle.ofName?_eq_some_iff.1 hstyle
  · next hstyle =>
    refine ends_throw ?_
    intro hall
    -- Where nothing is given, and where the word is empty, the default is taken.
    cases t with
    | none => cases hstyle
    | some word =>
      obtain ⟨hne, hspells⟩ := (ht.1 word).1 rfl
      rcases hall word hspells with hempty | ⟨style, hname⟩
      · exact hne hempty
      · have hfound : EnumerableStyle.ofName? word = some style :=
          EnumerableStyle.ofName?_eq_some_iff.2 hname
        rw [Option.getD_some, hfound] at hstyle
        cases hstyle

/-! ## §6. Settings together -/

/-- No text of a document is too long, and it is read as the settings that it holds. -/
structure Read (root : Path) (v : Value) (s : Settings) : Prop where
  short : ∀ x, Consulted v x → ¬Overlong x
  acceptable : Acceptable v
  readFrom : ReadFrom root v s

theorem setting_ends (v : Value) (key : String)
    (hkey : key ∈ ["output_dir", "templates_dir", "enumerable_style"]) :
    (filled? (given v key)).Ends (∃ x, Consulted v x ∧ Overlong x) (¬Acceptable v) fun _ =>
      ¬Overlong (given v key) :=
  (filled?_ends (given v key)).imp (fun h => ⟨_, .setting hkey, h⟩) False.elim fun _ h => h.2

theorem shape_ends (v : Value) (key : String) (hkey : key ∈ ["list", "dictionary"]) :
    (texts (shape v key)).Ends (∃ x, Consulted v x ∧ Overlong x) (¬Acceptable v) fun ts =>
      (∀ s, s ∈ ts ↔ Lists (shape v key) s) ∧ ∀ x, Item (shape v key) x → ¬Overlong x :=
  (texts_ends (shape v key)).imp (fun ⟨x, hx, h⟩ => ⟨x, .shape hkey hx, h⟩) False.elim
    fun _ h => h

/-- What is read from the entries of a document is valid, and the document was acceptable. -/
theorem ofEntries_ends (root : Path) (v : Value)
    (hmap : v.truthy = true → ∃ es, v.entries? = some es) :
    (ofEntries root (entries v)).Ends (∃ x, Consulted v x ∧ Overlong x) (¬Acceptable v)
      (Read root v) := by
  unfold ofEntries
  -- The settings are read in turn; each may be refused, or may hold an integer without a text.
  refine ((assembliesOf_ends root (given v "assemblies")).imp ?_ ?_ fun _ h => h).bind
    fun assemblies hassemblies => ?_
  · rintro ⟨items, hitems, entry, hentry, x, hx, hlong⟩
    exact ⟨x, .entry hitems hentry hx, hlong⟩
  · exact fun hno hacceptable => hno hacceptable.assemblies
  refine (setting_ends v "output_dir" (by simp)).bind fun output houtput => ?_
  refine (setting_ends v "templates_dir" (by simp)).bind fun templates htemplates => ?_
  refine ((workersOf_ends (given v "workers")).imp id ?_ fun _ h => h).bind
    fun workers hworkers => ?_
  · exact fun hno hacceptable => hno hacceptable.workers
  refine ((styleOf_ends (given v "enumerable_style")).imp ?_ ?_ fun _ h => h).bind
    fun style hstyle => ?_
  · exact fun hlong => ⟨_, .setting (by simp), hlong⟩
  · exact fun hno hacceptable => hno hacceptable.style
  refine (shape_ends v "list" (by simp)).bind fun listShapes hlist => ?_
  refine (shape_ends v "dictionary" (by simp)).map fun dictionaryShapes hdictionary => ?_
  -- Nothing has been refused, and every text was written.
  obtain ⟨hdescribed, hlisted, hlegible⟩ := hassemblies
  refine ⟨?_, ⟨hmap, ?_, ?_, ?_⟩, ⟨rfl, hdescribed, hworkers.1, hworkers.2.1, hworkers.2.2,
    hstyle.1, hlist.1, hdictionary.1, named_name _⟩⟩
  · rintro x (⟨hitems, hentry, hx⟩ | hkey | ⟨hkey, hx⟩)
    · exact (hlegible _ hitems _ hentry).short x hx
    · simp only [List.mem_cons, List.not_mem_nil, or_false] at hkey
      rcases hkey with rfl | rfl | rfl
      · exact houtput
      · exact htemplates
      · exact hstyle.2
    · simp only [List.mem_cons, List.not_mem_nil, or_false] at hkey
      rcases hkey with rfl | rfl
      · exact hlist.2 x hx
      · exact hdictionary.2 x hx
  · rcases hlisted with hnull | ⟨items, hitems⟩
    · exact .inl hnull
    · exact .inr ⟨items, hitems, fun entry hentry => (hlegible items hitems entry hentry).hasPath⟩
  · intro n hn
    have hcount := hworkers.2.1 n hn
    have hpos := hworkers.1
    omega
  · intro word hspells
    by_cases hempty : word = ""
    · exact .inl hempty
    · exact .inr ⟨style, hstyle.1 word hspells hempty⟩

variable {fileName : String} {s : Settings}

theorem ofValue_ends (root : Path) (fileName : String) (v : Value) :
    (ofValue root fileName v).Ends (∃ x, Consulted v x ∧ Overlong x) (¬Acceptable v)
      (Read root v) := by
  rw [ofValue_eq]
  split
  · next hno =>
    refine ends_throw ?_
    intro hacceptable
    obtain ⟨es, hes⟩ := hacceptable.isMap hno.1
    rw [hno.2] at hes
    cases hes
  · next hmap =>
    refine ofEntries_ends root v ?_
    intro htruthy
    exact Option.ne_none_iff_exists'.1 fun hnone => hmap ⟨htruthy, hnone⟩

/-- An acceptable document in which a text would be too long ends the program. -/
theorem run_of_overlong (root : Path) (fileName : String) {x : Value} (h : Acceptable v)
    (hx : Consulted v x) (hlong : Overlong x) :
    (ofValue root fileName v).run = .error (.excess .writing) := by
  rcases ofValue_ends root fileName v with ⟨h', -⟩ | ⟨e, -, hno⟩ | ⟨s, -, hread⟩
  · exact h'
  · exact absurd h hno
  · exact absurd hlong (hread.short x hx)

/-! ## §7. Settings files -/

/-- The document in the settings file that a path means.  A missing file, or one with nothing in
    it, is like one that holds null. -/
inductive Document (tree : Tree) (path : Path) : Path → Value → Prop
  | missing {file : Path} (hfile : locate tree path = .ok file)
      (hthere : tree.exists? file = .ok false) : Document tree path file .null
  | blank {file : Path} {text : String} (hfile : locate tree path = .ok file)
      (hthere : tree.exists? file = .ok true) (hread : tree.read file = .ok text)
      (hblank : text.toList.all Text.isBlank = true) : Document tree path file .null
  | spelled {file : Path} {text : String} {v : Value} (hfile : locate tree path = .ok file)
      (hthere : tree.exists? file = .ok true) (hread : tree.read file = .ok text)
      (hfilled : ¬text.toList.all Text.isBlank = true)
      (hvalue : Abort.yamlValue? text = .ok (some v)) : Document tree path file v

variable {tree : Tree} {path file : Path}

theorem load_of_document (h : Document tree path file v) :
    load tree path = (ofValue file.parent file.name v).run := by
  have hthere : ∀ {there : Bool}, tree.exists? file = .ok there →
      (liftM (tree.exists? file) : Except Abort Bool) = .ok there := liftM_eq_ok.2
  have hread : ∀ {text : String}, tree.read file = .ok text →
      (liftM (tree.read file) : Except Abort String) = .ok text := liftM_eq_ok.2
  unfold load
  cases h with
  | missing hfile hno =>
    rw [hfile, except_ok_bind, hthere hno, except_ok_bind]
    rfl
  | blank hfile hyes htext hblank =>
    rw [hfile, except_ok_bind, hthere hyes, except_ok_bind]
    simp only [hread htext, except_ok_bind, if_true, ofText, hblank]
    rfl
  | spelled hfile hyes htext hfilled hvalue =>
    rw [hfile, except_ok_bind, hthere hyes, except_ok_bind]
    simp only [hread htext, except_ok_bind, if_true, ofText, hfilled, hvalue]
    rfl

/-- Settings are loaded from a document only. -/
theorem document_of_load (h : load tree path = .ok (.ok s)) :
    ∃ file v, Document tree path file v ∧ (ofValue file.parent file.name v).run = .ok (.ok s) := by
  obtain ⟨file, hfile, h⟩ := except_bind_ok.1 h
  obtain ⟨there, hthere, h⟩ := except_bind_ok.1 h
  rw [liftM_eq_ok] at hthere
  cases there with
  | false =>
    cases h
    exact ⟨file, .null, .missing hfile hthere, rfl⟩
  | true =>
    obtain ⟨text, hread, h⟩ := except_bind_ok.1 h
    rw [liftM_eq_ok] at hread
    unfold ofText at h
    by_cases hblank : text.toList.all Text.isBlank = true
    · rw [if_pos hblank] at h
      exact ⟨file, .null, .blank hfile hthere hread hblank, h⟩
    · rw [if_neg hblank] at h
      obtain ⟨v?, hvalue, h⟩ := except_bind_ok.1 h
      cases v? with
      | none => cases h
      | some v => exact ⟨file, v, .spelled hfile hthere hread hblank hvalue, h⟩

/-- Whatever a document holds: reading it ends the program over an integer with too many digits, or
    it is refused and is not acceptable, or it is acceptable and the settings that are read are
    valid and say what it says.  Loading reads the document in a file that way, and there is no
    other way to settings. -/
theorem load_valid (tree : Tree) (path : Path) :
    (∀ root fileName v,
      (ofValue root fileName v).run = .error (.excess .writing) ∧
          (∃ x, Consulted v x ∧ Overlong x) ∨
        (∃ e, (ofValue root fileName v).run = .ok (.error e) ∧ ¬Acceptable v) ∨
        ∃ s, (ofValue root fileName v).run = .ok (.ok s) ∧ (∀ x, Consulted v x → ¬Overlong x) ∧
          Acceptable v ∧ ReadFrom root v s) ∧
    (∀ file v, Document tree path file v →
      load tree path = (ofValue file.parent file.name v).run) ∧
    ∀ s, load tree path = .ok (.ok s) →
      ∃ file v, Document tree path file v ∧ Acceptable v ∧ ReadFrom file.parent v s := by
  refine ⟨?_, ?_, ?_⟩
  · intro root fileName v
    rcases ofValue_ends root fileName v with h | h | ⟨s, hs, hread⟩
    · exact .inl h
    · exact .inr (.inl h)
    · exact .inr (.inr ⟨s, hs, hread.short, hread.acceptable, hread.readFrom⟩)
  · intro file v hdocument
    exact load_of_document hdocument
  · intro s h
    obtain ⟨file, v, hdocument, hs⟩ := document_of_load h
    rcases ofValue_ends file.parent file.name v with ⟨h', -⟩ | ⟨e, h', -⟩ | ⟨s', h', hread⟩
    · rw [hs] at h'
      cases h'
    · rw [hs] at h'
      cases h'
    · rw [hs] at h'
      cases h'
      exact ⟨file, v, hdocument, hread.acceptable, hread.readFrom⟩

/-- A directory for the stubs whose name is an integer with one digit too many. -/
def overlongDocument : Value :=
  .map [(.str "output_dir", .int (Nat.pow 10 4300))]

theorem acceptable_overlongDocument : Acceptable overlongDocument where
  isMap := fun _ => ⟨_, rfl⟩
  assemblies := .inl rfl
  workers := by
    intro n hn
    have hnull : given overlongDocument "workers" = .null := rfl
    rw [hnull] at hn
    cases hn
  style := by
    intro word hword
    have hnull : given overlongDocument "enumerable_style" = .null := rfl
    rw [hnull] at hword
    cases hword

/-- Nothing is wrong with the document, and yet reading it gives neither settings nor a fault of
    them. -/
theorem overlongDocument_aborts :
    Acceptable overlongDocument ∧
      (ofValue ⟨.single, []⟩ "s.yml" overlongDocument).run = .error (.excess .writing) ∧
      ¬∃ r, (ofValue ⟨.single, []⟩ "s.yml" overlongDocument).run = .ok r := by
  have hkey : "output_dir" ∈ ["output_dir", "templates_dir", "enumerable_style"] :=
    List.mem_cons_self
  have houtput : Consulted overlongDocument (.int (Nat.pow 10 4300)) := .setting hkey
  have hlong : Overlong (.int (Nat.pow 10 4300)) := ⟨_, rfl, by decide +kernel⟩
  have haborts :=
    run_of_overlong ⟨.single, []⟩ "s.yml" acceptable_overlongDocument houtput hlong
  refine ⟨acceptable_overlongDocument, haborts, ?_⟩
  rintro ⟨r, hr⟩
  rw [haborts] at hr
  cases hr

-- Numbers stand for texts, other values in a list are passed over, an empty style is none at all.
example :
    ((ofValue ⟨.single, []⟩ "s.yml" (.map [
        (.str "assemblies", .list [
          .map [(.str "path", .int 7), (.str "types", .list [.int 1, .bool true, .str "A*"])],
          .map [(.str "path", .str "b.yml"), (.str "types", .map [])]]),
        (.str "workers", .str " 2 "),
        (.str "enumerable_style", .str "")])).run.toOption.bind Except.toOption).map
      (fun s => (s.assemblies.map fun a => (a.path.parts, a.filters), s.workers, s.options.style))
    = some ([(["7"], ["1", "A*"]), (["b.yml"], ["*"])], 2, .function) := by
  decide +kernel

end EmmyStubs.Settings
