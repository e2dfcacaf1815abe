import EmmyStubs.Proofs.Agreement

/-! # Runs that come to their end

    A run writes directories and files and nothing else, so it comes to its end where all that it
    has to write is in some larger tree already:

    * **`Completes`**: a run is not aborted, and ends with a postcondition.
    * **`Fits`**: the tree of a run is within a larger one.
    * **`generate_completes`**: the run of one assembly ends, if the larger tree has the files of
      its stubs and the index.
-/

namespace EmmyStubs.Run

open EmmyStubs.Files

/-! ## §1. Completion -/

section

variable {α β : Type} {w : World}

/-- From `w` on a run is not aborted, and ends with `Q`. -/
def Completes (x : Run α) (w : World) (Q : α → World → Prop) : Prop :=
  ∃ a w', x.outcome w = (.ok a, w') ∧ Q a w'

theorem Completes.pure {Q : α → World → Prop} {a : α} (h : Q a w) :
    (Pure.pure a : Run α).Completes w Q :=
  ⟨a, w, outcome_pure_ok.2 ⟨rfl, rfl⟩, h⟩

theorem Completes.bind {Q : β → World → Prop} {x : Run α} {f : α → Run β}
    (h : x.Completes w fun a w' => (f a).Completes w' Q) : (x >>= f).Completes w Q := by
  obtain ⟨a, w₁, hx, b, w₂, hf, hq⟩ := h
  exact ⟨b, w₂, outcome_bind_ok.2 ⟨a, w₁, hx, hf⟩, hq⟩

theorem Completes.imp {Q Q' : α → World → Prop} {x : Run α} (h : x.Completes w Q)
    (hq : ∀ a w', x.outcome w = (.ok a, w') → Q a w' → Q' a w') : x.Completes w Q' := by
  obtain ⟨a, w', hx, ha⟩ := h
  exact ⟨a, w', hx, hq a w' hx ha⟩

theorem files_completes {Q : Tree → World → Prop} (h : Q w.tree w) : files.Completes w Q :=
  ⟨w.tree, w, outcome_files_ok.2 ⟨rfl, rfl⟩, h⟩

theorem need_completes {Q : α → World → Prop} {x : Except Abort α} {a : α} (hx : x = .ok a)
    (h : Q a w) : (need x).Completes w Q :=
  ⟨a, w, outcome_need_ok.2 ⟨hx, rfl⟩, h⟩

theorem change_completes {Q : Unit → World → Prop} {f : Tree → Except FileError Tree} {tree : Tree}
    (hf : f w.tree = .ok tree) (h : Q () { w with tree }) : (change f).Completes w Q :=
  ⟨(), _, outcome_change_ok.2 ⟨tree, hf, rfl⟩, h⟩

end

/-! ## §2. Steps within a larger tree -/

/-- There is no log file, and the tree is within `T`. -/
structure Fits (T : Tree) (w : World) : Prop where
  logFile : w.logFile = none
  within : w.tree.Within T

variable {T : Tree} {w : World} {load : Loader} {s : Settings} {output : Path}

theorem perform_completes {α : Type} {x : Action α} (h : Fits T w) :
    (perform x).Completes w fun a w' => a = (x.run w.session).1 ∧
      w' = { w with session := (x.run w.session).2 } ∧ Fits T w' := by
  have houtcome : (perform x).outcome w
      = (.ok (x.run w.session).1, { w with session := (x.run w.session).2 }) :=
    outcome_perform h.logFile
  exact ⟨_, _, houtcome, rfl, rfl, h.logFile, h.within⟩

theorem report_completes {level : Log.Level} {source : Log.Source} {message : String}
    (h : Fits T w) : (report level source message).Completes w fun _ w' => Fits T w' :=
  (perform_completes h).imp fun _ _ _ hw' => hw'.2.2

theorem writeFile_completes {path : Path} (text : String) (h : Fits T w) (hT : T.HasFile path) :
    (writeFile path text).Completes w fun _ w' => Fits T w' := by
  refine Completes.bind ((report_completes h).imp fun _ w₁ _ h₁ => ?_)
  obtain ⟨t₁, t₂, ht₁, ht₂, hwithin⟩ := Tree.write_within h₁.within hT text
  refine Completes.bind (change_completes ht₁ ?_)
  exact change_completes ht₂ ⟨h₁.logFile, hwithin⟩

theorem writeGroups_completes {assembly : String} {rs : List GroupResult} (h : Fits T w)
    (hT : ∀ r ∈ rs, T.HasFile (Output.namespacePath output assembly r.space)) :
    (writeGroups s output assembly rs).Completes w fun _ w' => Fits T w' := by
  induction rs generalizing w with
  | nil => exact .pure h
  | cons r rs ih =>
    have hgroup : (writeGroup s output assembly r).Completes w fun _ w' => Fits T w' := by
      refine Completes.bind (files_completes ?_)
      refine Completes.bind ((writeFile_completes _ h (hT r List.mem_cons_self)).imp ?_)
      exact fun _ _ _ h₁ => .pure h₁
    refine Completes.bind (hgroup.imp fun _ w₁ _ h₁ => ?_)
    refine Completes.bind ((ih h₁ fun r' hr => hT r' (List.mem_cons_of_mem r hr)).imp ?_)
    exact fun _ _ _ h₂ => .pure h₂

theorem writeIndex_completes (spaces : List (Option String)) (h : Fits T w)
    (hT : T.HasFile (Output.indexPath output)) :
    (writeIndex s output spaces).Completes w fun _ w' => Fits T w' := by
  refine Completes.bind (files_completes ?_)
  refine Completes.bind ((writeFile_completes _ h hT).imp fun _ _ _ h₁ => .pure h₁)

/-! ## §3. One assembly -/

theorem openDump_completes {a : Settings.Assembly} {dump : Dump} (h : Fits T w)
    (hthere : w.tree.exists? a.path = .ok true) (hload : load w.tree a.path = .ok (.ok dump)) :
    (openDump load a).Completes w fun d w' => d = some dump ∧ Fits T w' := by
  refine Completes.bind (files_completes ?_)
  refine Completes.bind (need_completes (liftM_eq_ok.2 hthere) ?_)
  rw [if_pos rfl]
  refine Completes.bind (need_completes hload ?_)
  refine Completes.bind ((report_completes h).imp fun _ w₁ _ h₁ => ?_)
  exact Completes.bind ((report_completes h₁).imp fun _ _ _ h₂ => .pure ⟨rfl, h₂⟩)

theorem generateDump_completes {a : Settings.Assembly} {dump : Dump} (h : Fits T w)
    (hT : ∀ p ∈ Turn.paths s output ⟨a, dump, w⟩, T.HasFile p) :
    (generateDump s output a.filters dump).Completes w fun _ w' => Fits T w' := by
  refine Completes.bind ((perform_completes h).imp ?_)
  rintro _ w₁ - ⟨rfl, rfl, h₁⟩
  refine Completes.bind ((perform_completes h₁).imp ?_)
  rintro _ w₂ - ⟨rfl, rfl, h₂⟩
  refine Completes.bind ((writeGroups_completes h₂ fun r hr => hT _ ?_).imp ?_)
  · exact List.mem_map_of_mem hr
  · exact fun _ _ _ h₃ => .pure h₃

/-- The run of one assembly comes to its end. -/
theorem generate_completes {tree : Tree} {a : Settings.Assembly} {dump : Dump}
    (ha : s.assemblies = [a]) (hwithin : tree.Within T)
    (hthere : tree.exists? a.path = .ok true) (hload : load tree a.path = .ok (.ok dump))
    (hdump : dump.Whole) (hT : ∀ r ∈ (Turn.alone s.options a dump).2,
      T.HasFile (Output.namespacePath output dump.name r.space))
    (hindex : T.HasFile (Output.indexPath output)) :
    ∃ report w', (generate load s output).outcome (World.start tree none) = (.ok report, w') := by
  -- Once the dump is read only the writing of files can fail, and `T` has all of these.
  have hstart : Fits T (World.start tree none) := ⟨rfl, hwithin⟩
  have hcompletes : (generate load s output).Completes (World.start tree none) fun _ _ => True := by
    unfold generate
    rw [ha]
    refine Completes.bind ((report_completes hstart).imp fun _ w₁ hw₁ h₁ => ?_)
    obtain ⟨hcaches, htree⟩ := report_ok hw₁ rfl
    have hdumps : (generateDumps load s output [a]).Completes w₁ fun _ w' => Fits T w' := by
      have hopen : (openDump load a).Completes w₁ fun d w' => d = some dump ∧ Fits T w' :=
        openDump_completes h₁ (htree ▸ hthere) (htree ▸ hload)
      refine Completes.bind (hopen.imp ?_)
      rintro _ w₂ hw₂ ⟨rfl, h₂⟩
      obtain ⟨hcaches', -, -⟩ := openDump_ok hw₂ h₁.logFile
      -- The caches are empty still.
      have hfaithful : w₂.session.Faithful dump.graph s.options :=
        hcaches'.faithful (hcaches.faithful Session.faithful_start)
      have hturn := (Turn.of_faithful ⟨a, dump, w₂⟩ hdump hfaithful).1
      refine Completes.bind ((generateDump_completes (a := a) h₂ fun p hp => ?_).imp ?_)
      · obtain ⟨r, hr, rfl⟩ := List.mem_map.1 hp
        exact hT r (congrArg Prod.snd hturn ▸ hr)
      · intro made w₃ _ h₃
        exact Completes.bind (Completes.pure (Completes.pure h₃))
    refine Completes.bind (hdumps.imp fun made w₂ _ h₂ => ?_)
    refine Completes.bind ((writeIndex_completes made.2 h₂ hindex).imp fun _ w₃ _ h₃ => ?_)
    refine Completes.bind ((report_completes h₃).imp fun _ w₄ _ h₄ => ?_)
    refine Completes.bind ⟨w₄, w₄, rfl, ?_⟩
    exact Completes.bind ((report_completes h₄).imp fun _ _ _ _ => .pure trivial)
  obtain ⟨report, w', houtcome, -⟩ := hcompletes
  exact ⟨report, w', houtcome⟩

end EmmyStubs.Run
