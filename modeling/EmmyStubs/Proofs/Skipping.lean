import EmmyStubs.Proofs.Turns

/-! # Skipped dumps

    A dump that is missing or refused leaves nothing behind but a message, and nothing that a run
    does depends on the messages before it.

    * **`Alike`**: worlds that differ in their messages only.
    * **`Matches`**: two steps have results that belong together in such worlds, and leave such
      worlds.  §2 has a rule for every step of a run.
    * **`Spoils`**: inserted dumps cannot be read when their turns come.
    * **`Skips`**: which paths are skipped then, given the fates of the others.
    * **`generate_skips`**: a run comes to the same end with and without inserted dumps, and reports
      them as skipped.
-/

namespace EmmyStubs

open EmmyStubs.Files

variable {α β γ δ : Type}

/-! ## §1. Messages apart -/

/-- What an action answers, and what it does to the caches, is not up to the log. -/
theorem Action.run_log (x : Action α) {s t : Session} (hnames : t.names = s.names)
    (hmappings : t.mappings = s.mappings) :
    (x.run t).1 = (x.run s).1 ∧ (x.run t).2.names = (x.run s).2.names ∧
      (x.run t).2.mappings = (x.run s).2.mappings := by
  -- None of the messages are looked at.
  have hsame : s.Same (fun _ => false) t := ⟨hnames, hmappings, by simp⟩
  obtain ⟨hanswer, hsame⟩ := x.run_same hsame
  exact ⟨hanswer, hsame.names, hsame.mappings⟩

namespace Run

/-- The worlds have no log file, and differ in their messages only. -/
structure Alike (w v : World) : Prop where
  quiet : w.logFile = none
  tree : v.tree = w.tree
  caches : SameCaches w v

theorem Alike.refl {w : World} (hw : w.logFile = none) : Alike w w :=
  ⟨hw, rfl, hw, rfl, rfl⟩

theorem Alike.trans {w v u : World} (h : Alike w v) (h' : Alike v u) : Alike w u :=
  ⟨h.quiet, h'.tree.trans h.tree, h.caches.trans h'.caches⟩

/-- Both runs were aborted alike, or neither was and their results belong together. -/
inductive Agree (R : α → β → Prop) : Except Abort α × World → Except Abort β × World → Prop
  | ok {a : α} {b : β} {w v : World} (hR : R a b) (h : Alike w v) : Agree R (.ok a, w) (.ok b, v)
  | error {e : Abort} {w v : World} (h : Alike w v) : Agree R (.error e, w) (.error e, v)

/-- One step after another, where the first ones agree. -/
theorem Agree.bind {R : α → β → Prop} {S : γ → δ → Prop} {x : Run α} {y : Run β}
    {f : α → Run γ} {g : β → Run δ} {w v : World} (h : Agree R (x.outcome w) (y.outcome v))
    (hf : ∀ a b w' v', x.outcome w = (.ok a, w') → R a b → Alike w' v' →
      Agree S ((f a).outcome w') ((g b).outcome v')) :
    Agree S ((x >>= f).outcome w) ((y >>= g).outcome v) := by
  rw [outcome_bind, outcome_bind]
  generalize hx : x.outcome w = p at h
  generalize y.outcome v = q at h
  cases h with
  | ok hR halike => exact hf _ _ _ _ hx hR halike
  | error halike => exact .error halike

/-! ## §2. Steps in worlds that are alike -/

/-- From worlds that are alike on the steps come to outcomes that agree. -/
def Matches (R : α → β → Prop) (x : Run α) (y : Run β) : Prop :=
  ∀ w v, Alike w v → Agree R (x.outcome w) (y.outcome v)

section

variable {Q : α → β → Prop} {R : γ → δ → Prop}

theorem Matches.pure {a : γ} {b : δ} (h : R a b) : Matches R (Pure.pure a) (Pure.pure b) :=
  fun _ _ halike => .ok h halike

theorem Matches.bind {x : Run α} {y : Run β} {f : α → Run γ} {g : β → Run δ}
    (hx : Matches Q x y) (hf : ∀ a b, Q a b → Matches R (f a) (g b)) :
    Matches R (x >>= f) (y >>= g) :=
  fun w v h => (hx w v h).bind fun a b w' v' _ hQ halike => hf a b hQ w' v' halike

/-- After the same result. -/
theorem Matches.then {x y : Run α} {f : α → Run γ} {g : α → Run δ} (hx : Matches Eq x y)
    (hf : ∀ a, Matches R (f a) (g a)) : Matches R (x >>= f) (y >>= g) :=
  hx.bind fun a _ hab => hab ▸ hf a

end

theorem matches_perform (x : Action α) : Matches Eq (perform x) (perform x) := by
  intro w v h
  obtain ⟨hanswer, hnames, hmappings⟩ := x.run_log h.caches.names h.caches.mappings
  rw [outcome_perform h.quiet, outcome_perform h.caches.logFile]
  exact .ok hanswer.symm ⟨h.quiet, h.tree, h.caches.logFile, hnames, hmappings⟩

/-- The messages may differ. -/
theorem matches_report {level level' : Log.Level} {source source' : Log.Source}
    {message message' : String} :
    Matches Eq (report level source message) (report level' source' message') := by
  intro w v h
  rw [report, report, outcome_perform h.quiet, outcome_perform h.caches.logFile]
  exact .ok rfl ⟨h.quiet, h.tree, h.caches.logFile, h.caches.names, h.caches.mappings⟩

theorem matches_files : Matches Eq files files :=
  fun _ _ h => .ok h.tree.symm h

theorem matches_get : Matches Alike (get : Run World) get :=
  fun _ _ h => .ok h h

theorem matches_need (x : Except Abort α) : Matches Eq (need x) (need x) := by
  cases x with
  | ok a => exact .pure rfl
  | error e => exact fun _ _ h => .error h

theorem matches_change (f : Tree → Except FileError Tree) : Matches Eq (change f) (change f) := by
  intro w v h
  rw [outcome_change, outcome_change, h.tree]
  cases f w.tree with
  | ok tree =>
    exact .ok rfl ⟨h.quiet, rfl, h.caches.logFile, h.caches.names, h.caches.mappings⟩
  | error e => exact .error h

variable {load : Loader} {s : Settings} {output : Path}

theorem matches_openDump (a : Settings.Assembly) :
    Matches Eq (openDump load a) (openDump load a) := by
  unfold openDump
  refine matches_files.then fun tree => (matches_need _).then fun there => ?_
  split
  · refine (matches_need _).then fun loaded => ?_
    split
    · exact matches_report.then fun _ => .pure rfl
    · exact matches_report.then fun _ => matches_report.then fun _ => .pure rfl
  · exact matches_report.then fun _ => .pure rfl

theorem matches_writeFile (path : Path) (text : String) :
    Matches Eq (writeFile path text) (writeFile path text) :=
  matches_report.then fun _ => (matches_change _).then fun _ => matches_change _

/-! ### Settings with other assemblies -/

variable {as : List Settings.Assembly}

theorem matches_writeGroups (assembly : String) (rs : List GroupResult) :
    Matches Eq (writeGroups s output assembly rs)
      (writeGroups { s with assemblies := as } output assembly rs) := by
  induction rs with
  | nil => exact .pure rfl
  | cons r rs ih =>
    have hfirst : Matches Eq (writeGroup s output assembly r)
        (writeGroup { s with assemblies := as } output assembly r) :=
      matches_files.then fun _ => (matches_writeFile _ _).then fun _ => .pure rfl
    exact hfirst.then fun _ => ih.then fun _ => .pure rfl

theorem matches_writeIndex (spaces : List (Option String)) :
    Matches Eq (writeIndex s output spaces)
      (writeIndex { s with assemblies := as } output spaces) :=
  matches_files.then fun _ => (matches_writeFile _ _).then fun _ => .pure rfl

theorem matches_generateDump (filters : List String) (dump : Dump) :
    Matches Eq (generateDump s output filters dump)
      (generateDump { s with assemblies := as } output filters dump) :=
  (matches_perform _).then fun _ => (matches_perform _).then fun _ =>
    (matches_writeGroups _ _).then fun _ => .pure rfl

theorem matches_generateDumps (bs : List Settings.Assembly) :
    Matches Eq (generateDumps load s output bs)
      (generateDumps load { s with assemblies := as } output bs) := by
  induction bs with
  | nil => exact .pure rfl
  | cons a rest ih =>
    unfold generateDumps
    refine (matches_openDump a).then fun d => ?_
    cases d with
    | none => exact (Matches.pure rfl).then fun _ => ih.then fun _ => .pure rfl
    | some dump => exact (matches_generateDump _ _).then fun _ => ih.then fun _ => .pure rfl

end Run

/-! ## §3. Inserted assemblies -/

/-- A configured assembly, or one inserted among those. -/
inductive Listed where
  | kept (a : Settings.Assembly)
  | inserted (a : Settings.Assembly)

namespace Listed

def assembly : Listed → Settings.Assembly
  | kept a => a
  | inserted a => a

def kept? : Listed → Option Settings.Assembly
  | kept a => some a
  | inserted _ => none

end Listed

namespace Run

variable {load : Loader} {s : Settings} {output : Path}

/-- Each inserted dump is missing or refused, as the files are when the run without the inserted
    ones comes to its place. -/
inductive Spoils (load : Loader) (s : Settings) (output : Path) : List Listed → World → Prop
  | nil {w : World} : Spoils load s output [] w
  | inserted {a : Settings.Assembly} {es : List Listed} {w : World}
      (hbad : Unreadable load w.tree a) (h : Spoils load s output es w) :
      Spoils load s output (.inserted a :: es) w
  | kept {a : Settings.Assembly} {es : List Listed} {w : World}
      (h : ∀ made w', (generateDumps load s output [a]).outcome w = (.ok made, w') →
        Spoils load s output es w') : Spoils load s output (.kept a :: es) w

/-- Whether a dump is missing or refused. -/
def unreadable? (load : Loader) (t : Tree) (a : Settings.Assembly) : Bool :=
  match t.exists? a.path, load t a.path with
  | .ok false, _ => true
  | .ok true, .ok (.error _) => true
  | _, _ => false

theorem unreadable?_iff {t : Tree} {a : Settings.Assembly} :
    unreadable? load t a = true ↔ Unreadable load t a := by
  unfold unreadable? Unreadable
  rcases t.exists? a.path with e | _ | _ <;> rcases load t a.path with e | e | dump <;> simp

instance (t : Tree) (a : Settings.Assembly) : Decidable (Unreadable load t a) :=
  decidable_of_iff _ unreadable?_iff

/-- It is enough to look at the world that a dump leaves, whether or not the run goes on. -/
theorem Spoils.kept_of_left {a : Settings.Assembly} {es : List Listed} {w : World}
    (h : Spoils load s output es ((generateDumps load s output [a]).outcome w).2) :
    Spoils load s output (.kept a :: es) w := by
  refine .kept fun made w' hout => ?_
  rwa [hout] at h

/-- A dump that cannot be read leaves a message. -/
theorem openDump_unreadable {a : Settings.Assembly} {w : World} (h : Unreadable load w.tree a)
    (hw : w.logFile = none) : ∃ w', (openDump load a).outcome w = (.ok none, w') ∧ Alike w w' := by
  -- Only the session grows, by one message.
  have hmessage : ∀ (level : Log.Level) (source : Log.Source) (message : String),
      ∃ w', (report level source message >>= fun _ => pure (none : Option Dump)).outcome w =
        (.ok none, w') ∧ Alike w w' := fun _ _ _ =>
    ⟨_, outcome_bind_ok.2 ⟨(), _, outcome_perform hw, rfl⟩, hw, rfl, hw, rfl, rfl⟩
  have hopen : ∀ {there : Bool} {w' : World}, w.tree.exists? a.path = .ok there → _ →
      (openDump load a).outcome w = (.ok none, w') := fun hthere hrest =>
    outcome_bind_ok.2 ⟨w.tree, w, outcome_files_ok.2 ⟨rfl, rfl⟩,
      outcome_bind_ok.2 ⟨_, w, outcome_need_ok.2 ⟨liftM_eq_ok.2 hthere, rfl⟩, hrest⟩⟩
  rcases h with hmissing | ⟨hthere, e, hload⟩
  · exact (hmessage _ _ _).imp fun w' h => ⟨hopen hmissing h.1, h.2⟩
  · exact (hmessage _ _ _).imp fun w' h => ⟨hopen hthere
      (outcome_bind_ok.2 ⟨_, w, outcome_need_ok.2 ⟨hload, rfl⟩, h.1⟩), h.2⟩

/-- The first assembly, and then the others. -/
theorem generateDumps_cons (a : Settings.Assembly) (rest : List Settings.Assembly) :
    generateDumps load s output (a :: rest) = do
      let (report, spaces) ← generateDumps load s output [a]
      let (report', spaces') ← generateDumps load s output rest
      return (report.append report', spaces ++ spaces') := by
  have hlast : ∀ made : Report × List (Option String),
      (made.1.append {}, made.2 ++ []) = made := by
    rintro ⟨⟨files, failures, skipped, typeCount⟩, spaces⟩
    simp [Report.append]
  simp only [generateDumps, bind_assoc, pure_bind, hlast]
  congr 1
  funext d
  cases d with
  | none => rfl
  | some dump => simp only [bind_pure]

/-- Where the others have met these fates, the paths are those of the inserted assemblies and of
    the others that were skipped, in order. -/
inductive Skips : List Listed → List Fate → List Path → Prop
  | nil : Skips [] [] []
  | inserted {a : Settings.Assembly} {es : List Listed} {fates : List Fate} {ps : List Path}
      (h : Skips es fates ps) : Skips (.inserted a :: es) fates (a.path :: ps)
  | taken {turn : Turn} {es : List Listed} {fates : List Fate} {ps : List Path}
      (h : Skips es fates ps) : Skips (.kept turn.assembly :: es) (.taken turn :: fates) ps
  | skipped {a : Settings.Assembly} {w : World} {es : List Listed} {fates : List Fate}
      {ps : List Path} (h : Skips es fates ps) :
      Skips (.kept a :: es) (.skipped a w :: fates) (a.path :: ps)

/-- The fate of an assembly, and then those of the others. -/
theorem Fates.cons {fate : Fate} {fates : List Fate} {w w' w'' : World}
    (h : Fates load s output w [fate] w') (h' : Fates load s output w' fates w'') :
    Fates load s output w (fate :: fates) w'' := by
  cases h with
  | skipped hopen hnil =>
    cases hnil
    exact .skipped hopen h'
  | taken hopen hmade hnil =>
    cases hnil
    exact .taken hopen hmade h'

/-- From some world on, the kept assemblies meet fates by which the paths `ps` are skipped, and with
    the inserted assemblies it is the paths `qs`. -/
def SkippedAmong (load : Loader) (s : Settings) (output : Path) (es : List Listed) (w : World)
    (ps qs : List Path) : Prop :=
  ∃ fates w', Fates load s output w fates w' ∧ ps = fates.filterMap Fate.skipped? ∧
    Skips es fates qs

theorem SkippedAmong.inserted {a : Settings.Assembly} {es : List Listed} {w : World}
    {ps qs : List Path} (h : SkippedAmong load s output es w ps qs) :
    SkippedAmong load s output (.inserted a :: es) w ps (a.path :: qs) := by
  obtain ⟨fates, w', hfates, hps, hqs⟩ := h
  exact ⟨fates, w', hfates, hps, .inserted hqs⟩

/-- What one assembly adds to the skipped paths is the same for both. -/
theorem SkippedAmong.kept {a : Settings.Assembly} {es : List Listed} {w w' : World}
    {made : Report × List (Option String)} {ps qs : List Path}
    (hone : (generateDumps load s output [a]).outcome w = (.ok made, w')) (hw : w.logFile = none)
    (h : SkippedAmong load s output es w' ps qs) :
    SkippedAmong load s output (.kept a :: es) w (made.1.skipped ++ ps)
      (made.1.skipped ++ qs) := by
  obtain ⟨fates, w'', hfates, rfl, hqs⟩ := h
  obtain ⟨first, ha, hfirst, -, hrecorded⟩ := generateDumps_fates hone hw
  obtain ⟨fate, rfl, rfl⟩ := List.map_eq_singleton_iff.1 ha.symm
  refine ⟨fate :: fates, w'', hfirst.cons hfates, ?_, ?_⟩
  · rw [hrecorded.skipped, ← List.filterMap_append, List.singleton_append]
  · rw [hrecorded.skipped]
    cases fate with
    | taken turn => exact .taken hqs
    | skipped a before => exact .skipped hqs

/-! ## §4. Two runs -/

/-- Results of some assemblies from a world on, and of the same with others inserted that are
    skipped. -/
structure Besides (load : Loader) (s : Settings) (output : Path) (es : List Listed) (w : World)
    (made made' : Report × List (Option String)) : Prop where
  files : made'.1.files = made.1.files
  failures : made'.1.failures = made.1.failures
  typeCount : made'.1.typeCount = made.1.typeCount
  spaces : made'.2 = made.2
  skipped : SkippedAmong load s output es w made.1.skipped made'.1.skipped

/-- The second report has inserted assemblies among the skipped, and else it is the first. -/
def Extends (load : Loader) (s : Settings) (output : Path) (es : List Listed) (w : World)
    (report report' : Report) : Prop :=
  ∃ skipped, report' = { report with skipped } ∧
    SkippedAmong load s output es w report.skipped skipped

/-- The reports with one more file. -/
theorem Besides.extends {es : List Listed} {w : World} {made made' : Report × List (Option String)}
    (h : Besides load s output es w made made') (path : Path) :
    Extends load s output es w (made.1.append { files := [path] })
      (made'.1.append { files := [path] }) := by
  refine ⟨made'.1.skipped, ?_, ?_⟩
  · simp only [Report.append, h.files, h.failures, h.typeCount, List.append_nil]
  · show SkippedAmong _ _ _ es w (made.1.skipped ++ []) made'.1.skipped
    rw [List.append_nil]
    exact h.skipped

theorem generateDumps_skips {as : List Settings.Assembly} (es : List Listed) {w v : World}
    (h : Alike w v) (hes : Spoils load s output es w) :
    Agree (Besides load s output es w)
      ((generateDumps load s output (es.filterMap Listed.kept?)).outcome w)
      ((generateDumps load { s with assemblies := as } output
        (es.map Listed.assembly)).outcome v) := by
  induction es generalizing w v with
  | nil => exact .ok ⟨rfl, rfl, rfl, rfl, [], w, .nil w, rfl, .nil⟩ h
  | cons e es ih =>
    cases hes with
    | @inserted a _ _ hbad hrest =>
      obtain ⟨v₁, hopen, halike⟩ := openDump_unreadable (h.tree ▸ hbad) h.caches.logFile
      have hskip : (generateDumps load { s with assemblies := as } output
          (a :: es.map Listed.assembly)).outcome v =
          (generateDumps load { s with assemblies := as } output (es.map Listed.assembly) >>=
            fun made => pure (Report.append { skipped := [a.path] } made.1, [] ++ made.2)).outcome
              v₁ := by
        rw [generateDumps, outcome_bind, hopen]
        rfl
      rw [List.filterMap_cons_none rfl, ← bind_pure (generateDumps load s output _),
        List.map_cons, Listed.assembly, hskip]
      refine (ih (h.trans halike) hrest).bind fun made made' w' v' _ hbesides halike' => ?_
      exact .ok
        { files := hbesides.files
          failures := hbesides.failures
          typeCount := (Nat.zero_add _).trans hbesides.typeCount
          spaces := hbesides.spaces
          skipped := hbesides.skipped.inserted } halike'
    | @kept a _ _ hleft =>
      show Agree _ ((generateDumps load s output (a :: es.filterMap Listed.kept?)).outcome w)
        ((generateDumps load { s with assemblies := as } output
          (a :: es.map Listed.assembly)).outcome v)
      rw [generateDumps_cons a (es.filterMap _), generateDumps_cons a (es.map _)]
      refine (matches_generateDumps [a] w v h).bind fun made _ w' v' hrun hmade halike => ?_
      subst hmade
      refine (ih halike (hleft _ _ hrun)).bind fun rest rest' w'' v'' _ hbesides halike' => ?_
      exact .ok
        { files := congrArg (made.1.files ++ ·) hbesides.files
          failures := congrArg (made.1.failures ++ ·) hbesides.failures
          typeCount := congrArg (made.1.typeCount + ·) hbesides.typeCount
          spaces := congrArg (made.2 ++ ·) hbesides.spaces
          skipped := hbesides.skipped.kept hrun h.quiet } halike'

/-- With inserted assemblies that cannot be read when their turns come, a run leaves the same files
    as without and is aborted alike; and where it comes to its end it reports the same, but for the
    inserted ones among the skipped. -/
theorem generate_skips (load : Loader) (s : Settings) (es : List Listed) (output : Path)
    (tree : Tree) (hs : s.assemblies = es.filterMap Listed.kept?)
    (hes : Spoils load s output es (begun tree output)) (result : Except Abort Report) (w : World)
    (h : (generate load s output).outcome (World.start tree none) = (result, w)) :
    ∃ result' w', (generate load { s with assemblies := es.map Listed.assembly } output).outcome
        (World.start tree none) = (result', w') ∧ w'.tree = w.tree ∧
      match result with
      | .ok report => ∃ fates w₁ skipped, Fates load s output (begun tree output) fates w₁ ∧
        report.skipped = fates.filterMap Fate.skipped? ∧
        result' = .ok { report with skipped } ∧ Skips es fates skipped
      | .error e => result' = .error e := by
  have hagree : Agree (Extends load s output es (begun tree output))
      ((generate load s output).outcome (World.start tree none))
      ((generate load { s with assemblies := es.map Listed.assembly } output).outcome
        (World.start tree none)) := by
    refine Agree.bind (R := Eq) (matches_report _ _ (Alike.refl rfl)) fun _ _ w v hw _ halike => ?_
    obtain rfl : w = begun tree output := (congrArg Prod.snd hw).symm
    rw [hs]
    refine (generateDumps_skips es halike hes).bind fun made made' w v _ hbesides halike => ?_
    obtain ⟨part, spaces⟩ := made
    obtain ⟨part', spaces'⟩ := made'
    obtain rfl : spaces' = spaces := hbesides.spaces
    -- The index is that of the same namespaces.
    refine (matches_writeIndex spaces').then (fun path => ?_) w v halike
    exact matches_report.then fun _ => matches_get.bind fun _ _ _ =>
      matches_report.then fun _ => .pure (hbesides.extends path)
  rw [h] at hagree
  generalize hamong : (generate load _ output).outcome _ = outcome' at hagree
  cases hagree with
  | ok hextends halike =>
    obtain ⟨skipped, rfl, fates, w₁, hfates, hreport, hskips⟩ := hextends
    exact ⟨_, _, rfl, halike.tree, fates, w₁, skipped, hfates, hreport, rfl, hskips⟩
  | error halike => exact ⟨_, _, rfl, halike.tree, rfl⟩

end Run

/-! ### Three dumps that cannot be read -/

/-- A dump, a text that is none, and a dump whose types declare each other. -/
def depotTree : Tree :=
  { cwd := ["work"]
    nodes := [(["work"], .directory),
      (["work", "game.json"], .file
        "\x7b\"assembly\":\"Game\",\"types\":[\x7b\"id\":\"N.A\",\"kind\":\"enum\"\x7d]\x7d"),
      (["work", "torn.json"], .file "\x7b"),
      (["work", "ring.json"], .file
        ("\x7b\"types\":[\x7b\"id\":\"N.B\",\"declaring_type\":\"N.C\"\x7d,"
          ++ "\x7b\"id\":\"N.C\",\"declaring_type\":\"N.B\"\x7d]\x7d"))] }

/-- Only the first of the two dumps is there. -/
def depotSettings : Settings :=
  { root := ⟨.relative, []⟩
    assemblies := ["game.json", "lost.json"].map fun name => ⟨⟨.relative, [name]⟩, ["*"]⟩ }

/-- Three others between them. -/
def depotList : List Listed :=
  [.inserted ⟨⟨.relative, ["gone.json"]⟩, []⟩, .kept ⟨⟨.relative, ["game.json"]⟩, ["*"]⟩,
    .inserted ⟨⟨.relative, ["torn.json"]⟩, []⟩, .kept ⟨⟨.relative, ["lost.json"]⟩, ["*"]⟩,
    .inserted ⟨⟨.relative, ["ring.json"]⟩, []⟩]

def depotOutcome (s : Settings) : Except Abort Report × World :=
  (Run.generate Dump.load s ⟨.relative, ["out"]⟩).outcome (World.start depotTree none)

theorem depotOutcome_skips : ∃ report w skipped w',
    depotOutcome depotSettings = (.ok report, w) ∧
    depotOutcome { depotSettings with assemblies := depotList.map Listed.assembly } =
      (.ok { report with skipped }, w') ∧
    w'.tree = w.tree ∧ report.skipped = [⟨.relative, ["lost.json"]⟩] ∧
    ∃ fates, report.skipped = fates.filterMap Run.Fate.skipped? ∧
      Run.Skips depotList fates skipped := by
  have hspoils : Run.Spoils Dump.load depotSettings ⟨.relative, ["out"]⟩ depotList
      (Run.begun depotTree ⟨.relative, ["out"]⟩) :=
    .inserted (by decide +kernel) (.kept_of_left (.inserted (by decide +kernel)
      (.kept_of_left (.inserted (by decide +kernel) .nil))))
  have hend : (depotOutcome depotSettings).1.toOption.map (·.skipped) =
      some [⟨.relative, ["lost.json"]⟩] := by decide +kernel
  rcases hrun : depotOutcome depotSettings with ⟨e | report, w⟩
  · rw [hrun] at hend
    cases hend
  · rw [hrun] at hend
    obtain ⟨result', w', hamong, htree, fates, w₁, skipped, -, hreport, rfl, hskips⟩ :=
      Run.generate_skips Dump.load depotSettings depotList ⟨.relative, ["out"]⟩ depotTree rfl
        hspoils _ w hrun
    exact ⟨report, w, skipped, w', rfl, hamong, htree, Option.some.inj hend, fates, hreport,
      hskips⟩

end EmmyStubs
