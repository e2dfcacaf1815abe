import EmmyStubs.Proofs.Buckets
import EmmyStubs.Proofs.Calling
import EmmyStubs.Proofs.Isolation
import EmmyStubs.Proofs.Keeping
import EmmyStubs.Proofs.Skipping

/-! # What is listed and what is generated

    Listing and generating open the same dumps with a session of their own each, which the one
    fills with much more than the other.

    * **`Offers`**: a tree has some dump for an assembly, or none that can be read.
    * **`listing`**: what is listed of some dumps.  Of several dumps of one name the last one
      counts, so it is all of them exactly if the names differ (`listing_eq_map_iff`).
    * **`Turn.Declares`**: what a turn writes are the declarations of its selected types, each
      under its qualified name.
    * **`listTypes_agrees`**: where each dump calls the types that a later dump describes by
      their names there, types are listed under the names under which a run declares them.
-/

namespace EmmyStubs

open EmmyStubs.Files

/-! ## §1. Listings -/

/-- The names of the types that are selected from a dump. -/
def typeNames (e : Source) : List String :=
  (Selection.chosen e.2.graph e.2.types e.1.filters).map e.2.graph.qualifiedName

/-- What is listed of some dumps: every name of an assembly with the types of the last dump of
    that name. -/
def listing (es : List Source) : List (String × List String) :=
  (buckets (·.2.name) es).map fun b => (b.1, (b.2.getLast?.map typeNames).getD [])

/-- The entry of a name is replaced; a new name goes last. -/
theorem setListing_map (name : String) (types : List String) (f : String → List String)
    {ks : List String} (hks : ks.Nodup) :
    Run.setListing name types (ks.map fun k => (k, f k))
      = (ks.map fun k => (k, if k = name then types else f k))
        ++ if name ∈ ks then [] else [(name, types)] := by
  induction ks with
  | nil => simp [Run.setListing]
  | cons k ks ih =>
    obtain ⟨hk, hks⟩ := List.nodup_cons.1 hks
    rw [List.map_cons, Run.setListing]
    by_cases heq : k = name
    · -- The name occurs once, so the later entries stay as they are.
      subst heq
      have hrest : ∀ k' ∈ ks, (k', f k') = (k', if k' = k then types else f k') := by
        intro k' hk'
        rw [if_neg fun h : k' = k => hk (h ▸ hk')]
      simp [List.map_congr_left hrest]
    · rw [if_neg heq, ih hks]
      simp [heq, Ne.symm heq]

theorem setListing_listing (es : List Source) (e : Source) :
    Run.setListing e.2.name (typeNames e) (listing es) = listing (es ++ [e]) := by
  unfold listing
  rw [buckets_concat, List.map_append, List.map_map, buckets, List.map_map]
  refine (setListing_map _ _ _ (nodup_eraseDups _)).trans (congrArg₂ (· ++ ·) ?_ ?_)
  · refine List.map_congr_left fun k _ => Prod.ext rfl ?_
    by_cases hk : k = e.2.name
    · simp [hk]
    · simp [hk]
  · split
    · rfl
    · rfl

/-- The listing has an entry for every dump exactly if no two of them share a name. -/
theorem listing_eq_map_iff (es : List Source) :
    listing es = es.map (fun e => (e.2.name, typeNames e)) ↔ (es.map (·.2.name)).Nodup := by
  constructor
  · intro h
    have hnames := congrArg (List.map (·.1)) h
    rw [listing, List.map_map, List.map_map] at hnames
    have hkeys : (es.map (·.2.name)).eraseDups = es.map (·.2.name) :=
      (map_fst_buckets (·.2.name) es).symm.trans hnames
    exact hkeys ▸ nodup_eraseDups _
  · intro h
    rw [listing, buckets_of_nodup h, List.map_map]
    rfl

/-! ## §2. Dumps in a tree -/

/-- A tree has the dump of an assembly, or none that can be read. -/
def Offers (load : Loader) (t : Tree) : Settings.Assembly × Option Dump → Prop
  | (a, some dump) => t.exists? a.path = .ok true ∧ load t a.path = .ok (.ok dump)
  | (a, none) => Run.Unreadable load t a

/-- What is offered of a file is not up to what is written elsewhere. -/
theorem Offers.of_grows {tree t : Tree} {written : Place → Prop}
    {e : Settings.Assembly × Option Dump} (h : Offers Dump.load tree e) {text : String}
    (hfind : tree.find e.1.path = .ok (e.1.path.goal tree.cwd, .file text))
    (hgrows : tree.Grows written t) (hp : ¬written (e.1.path.goal tree.cwd)) :
    Offers Dump.load t e := by
  obtain ⟨hthere, hload⟩ := Dump.load_of_find hfind hgrows hp
  obtain ⟨a, _ | dump⟩ := e
  · rcases h with hmissing | ⟨-, e, herror⟩
    · -- A file is there.
      have hself : tree.Grows (fun _ => False) tree := .refl
      have hfound := (Dump.load_of_find hfind hself id).1
      rw [hmissing] at hfound
      cases hfound
    · exact .inr ⟨hthere, e, hload.trans herror⟩
  · exact ⟨hthere, hload.trans h.2⟩

/-- The dumps among some that are offered. -/
def loaded (es : List (Settings.Assembly × Option Dump)) : List Source :=
  es.filterMap fun e => e.2.map (e.1, ·)

namespace Run

variable {load : Loader} {s : Settings} {output : Path} {w w' : World} {tree : Tree}

theorem SameCaches.calls {g : Graph} {own : List Descriptor} (h : SameCaches w w')
    (hs : w.session.Calls g own) : w'.session.Calls g own :=
  hs.congr h.names

/-- What is offered is what is opened. -/
theorem openDump_offered {e : Settings.Assembly × Option Dump} (h : Offers load w.tree e)
    (hw : w.logFile = none) :
    ∃ w', (openDump load e.1).outcome w = (.ok e.2, w') ∧ SameCaches w w' ∧ w'.tree = w.tree := by
  obtain ⟨a, _ | dump⟩ := e
  · obtain ⟨w', hopen, halike⟩ := openDump_unreadable h hw
    exact ⟨w', hopen, halike.caches, halike.tree⟩
  · obtain ⟨_, w', hopen, rfl, -⟩ := openDump_completes ⟨hw, .refl⟩ h.1 h.2
    obtain ⟨hcaches, htree, -⟩ := openDump_ok hopen hw
    exact ⟨w', hopen, hcaches, htree⟩

/-! ## §3. Listing -/

/-- Between the worlds a dump with this graph was worked on, and no file was written. -/
structure WorkedOn (g : Graph) (w w' : World) : Prop where
  logFile : w'.logFile = none
  tree : w'.tree = w.tree
  calls : ∀ g' own, g.NamesAlike g' own → w.session.Calls g' own → w'.session.Calls g' own

theorem WorkedOn.trans {g : Graph} {w'' : World} (h : WorkedOn g w w') (h' : WorkedOn g w' w'') :
    WorkedOn g w w'' :=
  ⟨h'.logFile, h'.tree.trans h.tree, fun g' own hg hs => h'.calls g' own hg (h.calls g' own hg hs)⟩

/-- Where the names are right, an action returns what it returns wherever they are right. -/
theorem perform_calls {α : Type} {g : Graph} {own : List Descriptor} {x : Action α} {a : α}
    (hasks : x.Asks (Request.Translates g fun _ => True))
    (hx : ∀ s, x.Meets (Session.Calls g own) (fun b _ => b = a) s) (hw : w.logFile = none)
    (hs : w.session.Calls g own) : (perform x).Completes w fun b w' => b = a ∧ WorkedOn g w w' :=
  ⟨_, _, outcome_perform hw, ((hx w.session).run hs).2, hw, rfl, fun _ _ hg => hasks.run_calls hg⟩

/-- Where a dump has a type that a later dump describes, it gives it the later dump's name. -/
def Unanimous (es : List Source) : Prop :=
  es.Pairwise fun e later => e.2.graph.NamesAlike later.2.graph later.2.types

/-- Some dumps are listed behind others. -/
theorem listDumps_completes {es : List (Settings.Assembly × Option Dump)} (before : List Source)
    (hw : w.logFile = none) (hes : ∀ e ∈ es, Offers Dump.load w.tree e)
    (hnames : Unanimous (loaded es))
    (hs : ∀ e ∈ loaded es, w.session.Calls e.2.graph e.2.types) :
    (listDumps Dump.load (listing before) (es.map (·.1))).Completes w
      fun made _ => made = listing (before ++ loaded es) := by
  -- By induction on the dumps to come, whose names are right before each of them is listed.
  induction es generalizing before w with
  | nil => exact Completes.pure (by rw [loaded, List.filterMap_nil, List.append_nil])
  | cons e es ih =>
    obtain ⟨w₁, hopen, hcaches, htree⟩ := openDump_offered (hes e List.mem_cons_self) hw
    have hes₁ : ∀ e' ∈ es, Offers Dump.load w₁.tree e' :=
      fun e' he' => htree ▸ hes e' (List.mem_cons_of_mem e he')
    refine Completes.bind ⟨e.2, w₁, hopen, ?_⟩
    obtain ⟨a, _ | dump⟩ := e
    · -- Without a dump nothing is listed.
      exact ih before hcaches.logFile hes₁ hnames fun e' he' => hcaches.calls (hs e' he')
    · -- Types are selected by their right names, and then named; neither writes a file.
      have hhas := (Dump.load_whole (hes _ List.mem_cons_self).2).has
      have hmem : ∀ d ∈ Selection.chosen dump.graph dump.types a.filters, d ∈ dump.types :=
        fun d hd => (List.mem_filter.1 hd).1
      obtain ⟨hfirst, hrest⟩ := List.pairwise_cons.1 hnames
      have hown : w₁.session.Calls dump.graph dump.types :=
        hcaches.calls (hs (a, dump) List.mem_cons_self)
      have hselect : (perform (Selection.select dump.graph dump.types a.filters)).Completes w₁
          fun b w' => b = Selection.chosen dump.graph dump.types a.filters ∧
            WorkedOn dump.graph w₁ w' :=
        perform_calls (Action.Asks.serves.select (o := {}) hhas) (Selection.select_calls hhas)
          hcaches.logFile hown
      refine Completes.bind (hselect.imp ?_)
      rintro _ w₂ - ⟨rfl, hworked⟩
      have hresolve := perform_calls (resolveTypes_asks fun d hd => hhas d (hmem d hd))
        (resolveTypes_calls hhas hmem) hworked.logFile
        (hworked.calls _ _ (Graph.namesAlike_self hhas) hown)
      refine Completes.bind (hresolve.imp ?_)
      rintro _ w₃ - ⟨rfl, hworked'⟩
      -- All that was stored for this dump is right for the dumps after it, which name alike.
      have hboth := hworked.trans hworked'
      have hlast := ih (before ++ [(a, dump)]) hboth.logFile (hboth.tree.symm ▸ hes₁) hrest
        fun e' he' => hboth.calls _ _ (hfirst e' he')
          (hcaches.calls (hs e' (List.mem_cons_of_mem _ he')))
      rw [List.append_assoc, ← setListing_listing] at hlast
      exact hlast

/-! ## §4. Generating -/

end Run

/-- What a turn writes are the declarations of its selected types, each under its qualified name
    unless the type is faulty. -/
def Turn.Declares (o : Options) (turn : Turn) : Prop :=
  ∃ ds, ds.Perm turn.selected ∧
    List.Forall₂ turn.dump.graph.Declares ds ((turn.results o).flatMap (·.declarations))

namespace Turn

variable {o : Options} {turn : Turn}

/-- A turn that finds the names of its dump right selects by these names. -/
theorem selection_calls (hdump : turn.dump.Whole)
    (hs : turn.before.session.Calls turn.dump.graph turn.dump.types) :
    turn.selection.2.Calls turn.dump.graph turn.dump.types ∧
      turn.selected = Selection.chosen turn.dump.graph turn.dump.types turn.assembly.filters :=
  (Selection.select_calls hdump.has turn.before.session).run hs

/-- And it declares by them. -/
theorem declares_of_calls (hdump : turn.dump.Whole)
    (hs : turn.before.session.Calls turn.dump.graph turn.dump.types) : turn.Declares o := by
  obtain ⟨hselection, -⟩ := selection_calls hdump hs
  have hresults : List.Forall₂
      (fun grp r => List.Forall₂ turn.dump.graph.Declares grp.types r.declarations)
      (groupBySpace turn.selected) (turn.results o) :=
    ((renderAll_calls hdump.has mem_of_mem_groups turn.selection.2).run hselection).2
  exact ⟨_, (groupBySpace_grouped turn.selected).all, List.rel_flatMap hresults fun _ _ h => h⟩

/-- What it leaves is right for all types of other graphs that its own graph names alike. -/
theorem translation_calls (hdump : turn.dump.Whole) {g : Graph} {own : List Descriptor}
    (hg : turn.dump.graph.NamesAlike g own) (hs : turn.before.session.Calls g own) :
    (turn.translation o).2.Calls g own := by
  have hselection : turn.selection.2.Calls g own :=
    (Action.Asks.serves.select (o := o) hdump.has).run_calls hg hs
  exact (Action.Asks.serves.renderAll (has_of_mem_groups hdump)).run_calls hg hselection

end Turn

namespace Run

/-- An assembly, and its dump if it had a turn. -/
def Fate.found : Fate → Settings.Assembly × Option Dump
  | taken turn => (turn.assembly, some turn.dump)
  | skipped a _ => (a, none)

variable {s : Settings} {output : Path} {w w' : World} {tree : Tree}

theorem loaded_map_found (fates : List Fate) :
    loaded (fates.map Fate.found) = (turnsOf fates).map fun turn => (turn.assembly, turn.dump) := by
  induction fates with
  | nil => rfl
  | cons fate fates ih =>
    cases fate with
    | taken turn => exact congrArg ((turn.assembly, turn.dump) :: ·) ih
    | skipped a before => exact ih

/-- Every turn finds the names of its dump right, as long as the dumps name types alike. -/
theorem Fates.calls {fates : List Fate} (h : Fates Dump.load s output w fates w')
    (hw : w.logFile = none) (hnames : Unanimous (loaded (fates.map Fate.found)))
    (hs : ∀ e ∈ loaded (fates.map Fate.found), w.session.Calls e.2.graph e.2.types) :
    ∀ turn ∈ turnsOf fates,
      turn.dump.Whole ∧ turn.before.session.Calls turn.dump.graph turn.dump.types := by
  induction h with
  | nil w => simp [turnsOf]
  | skipped hopen _ ih =>
    obtain ⟨hcaches, -, -⟩ := openDump_ok hopen hw
    exact ih hcaches.logFile hnames fun e he => hcaches.calls (hs e he)
  | @taken w w₁ w₂ w' a dump fates made hopen hmade _ ih =>
    obtain ⟨hcaches, -, hdump⟩ := openDump_ok hopen hw
    have hwhole : dump.Whole := Dump.load_whole (hdump dump rfl).2
    have hturn := generateDump_ok hmade hcaches.logFile
    obtain ⟨hfirst, hrest⟩ := List.pairwise_cons.1 hnames
    have hown : w₁.session.Calls dump.graph dump.types :=
      hcaches.calls (hs (a, dump) List.mem_cons_self)
    -- What this turn leaves in the cache of names is right for the dumps after it.
    have hleft : ∀ e ∈ loaded (fates.map Fate.found),
        (Turn.translation s.options ⟨a, dump, w₁⟩).2.Calls e.2.graph e.2.types := fun e he =>
      Turn.translation_calls hwhole (hfirst e he)
        (hcaches.calls (hs e (List.mem_cons_of_mem _ he)))
    have hlater := ih hturn.logFile hrest fun e he => (hleft e he).congr hturn.names
    exact List.forall_mem_cons.2 ⟨⟨hwhole, hown⟩, hlater⟩

/-- A run finds the dumps as a tree offers them, if they are offered whatever is written at the
    places of its files. -/
theorem Fates.map_found {load : Loader} {es : List (Settings.Assembly × Option Dump)}
    {written : Place → Prop} {fates : List Fate} (h : Fates load s output w fates w')
    (hw : w.logFile = none) (has : fates.map Fate.assembly = es.map (·.1))
    (hes : ∀ t, tree.Grows written t → ∀ e ∈ es, Offers load t e)
    (hgrows : tree.Grows written w.tree)
    (hwritten : ∀ turn ∈ turnsOf fates, ∀ p ∈ turn.paths s output, written (p.goal tree.cwd)) :
    fates.map Fate.found = es := by
  -- By induction on the fates: each dump is found as it is offered, whatever was written before.
  induction h generalizing es with
  | nil w => exact (List.map_eq_nil_iff.1 has.symm).symm
  | skipped hopen _ ih =>
    obtain ⟨e, es, rfl, rfl, hrest⟩ := List.map_eq_cons_iff.1 has.symm
    obtain ⟨w₁, hopen', hcaches, htree⟩ := openDump_offered (hes _ hgrows e List.mem_cons_self) hw
    obtain ⟨hnone, rfl⟩ := Prod.mk.inj (hopen'.symm.trans hopen)
    have hlater := ih hcaches.logFile hrest.symm
      (fun t ht e' he' => hes t ht e' (List.mem_cons_of_mem e he')) (htree.symm ▸ hgrows) hwritten
    rw [List.map_cons, hlater, Fate.found, ← Except.ok.inj hnone]
  | @taken w w₁ w₂ w' a dump fates made hopen hmade _ ih =>
    obtain ⟨e, es, rfl, rfl, hrest⟩ := List.map_eq_cons_iff.1 has.symm
    obtain ⟨w₁', hopen', hcaches, htree⟩ := openDump_offered (hes _ hgrows e List.mem_cons_self) hw
    obtain ⟨hsome, rfl⟩ := Prod.mk.inj (hopen'.symm.trans hopen)
    obtain ⟨hfirst, hothers⟩ := List.forall_mem_cons.1 hwritten
    have hturn := generateDump_ok hmade hcaches.logFile
    obtain ⟨files, hwrites, hfiles⟩ := hturn.written
    have hopened : tree.Grows written w₁'.tree := htree.symm ▸ hgrows
    -- What this turn writes is at the places of the run's files.
    have hgrows' : tree.Grows written w₂.tree := by
      refine hopened.trans (hwrites.grows.mono fun q hq => ?_)
      obtain ⟨file, hfile, rfl⟩ := List.mem_map.1 hq
      have hpaths : files.map (·.1) = Turn.paths s output ⟨e.1, dump, w₁'⟩ :=
        map_path_of_fileOf hfiles
      exact hopened.cwd ▸ hfirst file.1 (hpaths ▸ List.mem_map_of_mem hfile)
    have hlater := ih hturn.logFile hrest.symm
      (fun t ht e' he' => hes t ht e' (List.mem_cons_of_mem e he')) hgrows' hothers
    rw [List.map_cons, hlater, Fate.found, ← Except.ok.inj hsome]

/-- What some turns have declared is what is listed of some dumps. -/
structure Generated (o : Options) (es : List Source) (turns : List Turn) (report : Report) :
    Prop where
  dumps : turns.map (fun turn => (turn.assembly, turn.dump)) = es
  names : turns.map (fun turn => turn.selected.map turn.dump.graph.qualifiedName)
    = es.map typeNames
  declares : ∀ turn ∈ turns, turn.Declares o
  count : report.typeCount = (es.map fun e => (typeNames e).length).sum
  listed : (es.map (·.2.name)).Nodup →
    ((listing es).map (·.2.length)).sum = report.typeCount

/-- Let a tree have some dumps for the assemblies of some settings, or none that can be read, and
    let each dump give the types that a later dump describes the names that the later one gives
    them.  Then the listing has the names of the types that are selected from each dump, unless a
    later dump has the same name.  A completed run that finds the dumps as they are in the tree
    declares just these types under just these names; and where no two dumps have one name, it
    counts as many types as are listed. -/
theorem listTypes_agrees (s : Settings) (output : Path) (tree : Tree)
    (es : List (Settings.Assembly × Option Dump)) (hs : s.assemblies = es.map (·.1))
    (hes : ∀ e ∈ es, Offers Dump.load tree e) (hnames : Unanimous (loaded es)) :
    (∃ w, (listTypes Dump.load s).outcome (World.start tree none)
      = (.ok (listing (loaded es)), w)) ∧
    (listing (loaded es) = (loaded es).map (fun e => (e.2.name, typeNames e)) ↔
      ((loaded es).map (·.2.name)).Nodup) ∧
    ∀ report w', (generate Dump.load s output).outcome (World.start tree none)
        = (.ok report, w') →
      ∃ fates w₁, Fates Dump.load s output (begun tree output) fates w₁ ∧
        s.assemblies = fates.map Fate.assembly ∧
        report.files = (turnsOf fates).flatMap (Turn.paths s output) ++ [Output.indexPath output] ∧
        (fates.map Fate.found = es →
          Generated s.options (loaded es) (turnsOf fates) report) := by
  have hcaches : SameCaches (World.start tree none) (begun tree output) := ⟨rfl, rfl, rfl⟩
  refine ⟨?_, listing_eq_map_iff _, fun report w' h => ?_⟩
  · -- The listing starts on empty caches, where all names are right.
    obtain ⟨made, w, hlist, rfl⟩ := listDumps_completes (w := World.start tree none) [] rfl hes
      hnames fun _ _ => Session.Calls.start
    rw [← hs] at hlist
    exact ⟨w, hlist⟩
  · obtain ⟨fates, w₁, part, has, hfates, hrecorded, rfl, -⟩ := generate_fates h
    refine ⟨fates, w₁, hfates, has, ?_, ?_⟩
    · exact congrArg (· ++ [Output.indexPath output]) hrecorded.files
    · rintro rfl
      -- So does the run: every turn finds the names of its dump right, and selects by them.
      have hcalls := hfates.calls (logFile_begun tree output) hnames
        fun _ _ => Session.Calls.start.congr hcaches.names
      have hselected : ∀ turn ∈ turnsOf fates,
          turn.selected.map turn.dump.graph.qualifiedName = typeNames (turn.assembly, turn.dump) :=
        fun turn hturn => congrArg (List.map _)
          (Turn.selection_calls (hcalls turn hturn).1 (hcalls turn hturn).2).2
      -- The report counts what the turns select.
      have hcount : part.1.typeCount
          = ((loaded (fates.map Fate.found)).map fun e => (typeNames e).length).sum := by
        rw [hrecorded.typeCount, loaded_map_found, List.map_map]
        refine congrArg List.sum (List.map_congr_left fun turn hturn => ?_)
        exact (List.length_map _).symm.trans (congrArg List.length (hselected turn hturn))
      exact
        { dumps := (loaded_map_found fates).symm
          names := by
            rw [loaded_map_found, List.map_map]
            exact List.map_congr_left hselected
          declares := fun turn hturn =>
            Turn.declares_of_calls (hcalls turn hturn).1 (hcalls turn hturn).2
          count := hcount
          listed := fun hnodup => by
            rw [(listing_eq_map_iff _).2 hnodup, List.map_map]
            exact hcount.symm }

end Run

/-! ### A class that another dump refers to -/

/-- The files of two dumps and, between them, of a text that is none.  The first dump has a class
    that extends one of the last dump. -/
def quayTree (hull : Identity) : Tree :=
  { cwd := ["work"]
    nodes := [(["work"], .directory),
      (["work", "ship.json"], .file
        ("\x7b\"types\":[\x7b\"id\":\"N.Ship\",\"base_type\":\"" ++ hull ++ "\"\x7d]\x7d")),
      (["work", "torn.json"], .file "\x7b"),
      (["work", "hull.json"], .file ("\x7b\"types\":[\x7b\"id\":\"" ++ hull ++ "\"\x7d]\x7d"))] }

def quayAssembly (file : String) : Settings.Assembly :=
  ⟨⟨.relative, [file]⟩, ["*"]⟩

def quaySettings : Settings :=
  { root := ⟨.relative, []⟩
    assemblies := ["ship.json", "torn.json", "hull.json"].map quayAssembly }

def quayDump? (hull : Identity) (file : String) : Option Dump :=
  match Dump.load (quayTree hull) ⟨.relative, [file]⟩ with
  | .ok (.ok dump) => some dump
  | _ => none

def quayListing (hull : Identity) : Option (List (String × List String)) :=
  ((Run.listTypes Dump.load quaySettings).outcome (World.start (quayTree hull) none)).1.toOption

def quayOutcome (hull : Identity) : Except Abort Report × World :=
  (Run.generate Dump.load quaySettings ⟨.relative, ["out"]⟩).outcome
    (World.start (quayTree hull) none)

theorem load_quayTree {hull : Identity} {file : String} {dump : Dump}
    (h : quayDump? hull file = some dump) :
    Dump.load (quayTree hull) ⟨.relative, [file]⟩ = .ok (.ok dump) := by
  unfold quayDump? at h
  split at h
  · next dump' hload =>
    rw [← Option.some.inj h]
    exact hload
  · cases h

/-- Whether both dumps can be read, and the first one gives the types of the second their names. -/
def quayUnanimous (hull : Identity) : Bool :=
  match quayDump? hull "ship.json", quayDump? hull "hull.json" with
  | some dump, some dump' => dump.graph.namesAlike? dump'.graph dump'.types
  | _, _ => false

theorem exists_of_quayUnanimous {hull : Identity} (h : quayUnanimous hull = true) :
    ∃ dump dump', quayDump? hull "ship.json" = some dump ∧ quayDump? hull "hull.json" = some dump' ∧
      dump.graph.NamesAlike dump'.graph dump'.types := by
  unfold quayUnanimous at h
  split at h
  · next dump dump' hdump hdump' =>
    exact ⟨dump, dump', hdump, hdump', Graph.namesAlike_of_all h⟩
  · cases h

/-- A class that both dumps call by its name is declared under the name that is listed. -/
theorem quayListing_generated : ∃ dump dump' report w' turns,
    quayListing "M.Hull" = some [("ship", ["N.Ship"]), ("hull", ["M.Hull"])] ∧
    quayOutcome "M.Hull" = (.ok report, w') ∧ report.typeCount = 2 ∧
    Run.Generated {} [(quayAssembly "ship.json", dump), (quayAssembly "hull.json", dump')] turns
      report := by
  have hreport : (quayOutcome "M.Hull").1.toOption.map (fun r => (r.files, r.typeCount))
      = some ([["out", "ship", "N.lua"], ["out", "hull", "M.lua"], ["out", "global.lua"]].map
        fun parts => ⟨.relative, parts⟩, 2) := by decide +kernel
  have hlisting : quayListing "M.Hull"
      = some [("ship", ["N.Ship"]), ("hull", ["M.Hull"])] := by decide +kernel
  have hunanimous : quayUnanimous "M.Hull" = true := by decide +kernel
  obtain ⟨dump, dump', hdump, hdump', hnames⟩ := exists_of_quayUnanimous hunanimous
  have htorn : Run.Unreadable Dump.load (quayTree "M.Hull") (quayAssembly "torn.json") := by
    decide +kernel
  let es := [(quayAssembly "ship.json", some dump), (quayAssembly "torn.json", none),
    (quayAssembly "hull.json", some dump')]
  have hes : ∀ e ∈ es, Offers Dump.load (quayTree "M.Hull") e ∧ ∃ text,
      (quayTree "M.Hull").find e.1.path
        = .ok (e.1.path.goal (quayTree "M.Hull").cwd, .file text) := by
    simp only [es, List.forall_mem_cons]
    exact ⟨⟨⟨by decide +kernel, load_quayTree hdump⟩, _, rfl⟩, ⟨htorn, _, rfl⟩,
      ⟨⟨by decide +kernel, load_quayTree hdump'⟩, _, rfl⟩, by simp⟩
  rcases hrun : quayOutcome "M.Hull" with ⟨e | report, w'⟩
  · rw [hrun] at hreport
    cases hreport
  · rw [hrun] at hreport
    obtain ⟨hfiles, hcount⟩ := Prod.mk.inj (Option.some.inj hreport)
    obtain ⟨-, -, hgenerated⟩ := Run.listTypes_agrees quaySettings ⟨.relative, ["out"]⟩
      (quayTree "M.Hull") es rfl (fun e he => (hes e he).1) (List.pairwise_pair.2 hnames)
    obtain ⟨fates, w₁, hfates, has, hpaths, hgenerated⟩ := hgenerated report w' hrun
    have hplaces : ∀ file ∈ ["ship.json", "torn.json", "hull.json"],
        ¬∃ p ∈ report.files, p.goal ["work"] = (quayAssembly file).path.goal ["work"] := by
      rw [hfiles]
      decide
    -- None of the files that are written is one of the three.
    have hfound : fates.map Run.Fate.found = es := by
      have hgrows : (quayTree "M.Hull").Grows (fun q => ∃ p ∈ report.files, p.goal ["work"] = q)
          (Run.begun (quayTree "M.Hull") ⟨.relative, ["out"]⟩).tree := .refl
      refine hfates.map_found (Run.logFile_begun _ _) has.symm (fun t ht e he => ?_) hgrows
        fun turn hturn p hp => ?_
      · obtain ⟨hoffers, text, hfind⟩ := hes e he
        have hassembly : e.1 ∈ ["ship.json", "torn.json", "hull.json"].map quayAssembly :=
          List.mem_map_of_mem (f := (·.1)) he
        obtain ⟨file, hfile, heq⟩ := List.mem_map.1 hassembly
        exact hoffers.of_grows hfind ht (heq ▸ hplaces file hfile)
      · have hp' : p ∈ report.files :=
          hpaths ▸ List.mem_append_left _ (List.mem_flatMap.2 ⟨turn, hturn, hp⟩)
        exact ⟨p, hp', rfl⟩
    exact ⟨dump, dump', report, w', _, hlisting, rfl, hcount, hgenerated hfound⟩

/-- Of a dump that is listed twice, the second listing takes the place of the first. -/
theorem pairListing_loses_type :
    ((Run.listTypes Dump.load (pairSettings [["N.A"], ["N.B"]])).outcome
      (World.start pairTree none)).1.toOption = some [("Game", ["N.B"])] ∧
    ∃ report w', pairOutcome [["N.A"], ["N.B"]] = (.ok report, w') ∧ report.typeCount = 2 := by
  obtain ⟨report, w', hrun, -, hcount, -⟩ := exists_of_pairEnds pairEnds_twice
  exact ⟨by decide +kernel, report, w', hrun, hcount⟩

/-- The file of a dump whose class has some name. -/
def quayText (hull : String) : String :=
  "---@meta\n---Auto-generated from hull\n---Namespace: M\n\n---@class " ++ hull
    ++ ": System.Object\nCS." ++ hull ++ " = \x7b\x7d\n\n\n"

/-- A class that the dumps call differently is listed under one name and declared under the
    other. -/
theorem quayListing_misnames :
    quayListing "M.Yard+Hull" = some [("ship", ["N.Ship"]), ("hull", ["M.Hull"])] ∧
    (quayOutcome "M.Yard+Hull").2.tree.node? ["work", "out", "hull", "M.lua"]
      = some (.file (quayText "M.Yard.Hull")) :=
  ⟨by decide +kernel, by decide +kernel⟩

end EmmyStubs
