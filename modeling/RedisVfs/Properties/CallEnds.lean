import RedisVfs.Properties.KeptListings

set_option autoImplicit false

namespace RedisVfs

open CString Directory

theorem Pruned.Before.linked {pruned later : Pruned} (before : Pruned.Before pruned later) {id : Nat}
    (linked : pruned.history.Linked id) : later.history.Linked id := by
  obtain ⟨entries, grown⟩ := before.history
  rw [grown]
  clear grown
  induction entries with
  | nil => exact linked
  | cons entry entries ih => exact ih.older entry

namespace Sessions

variable {ι : Type} [DecidableEq ι] {earlier sessions : Sessions ι}

theorem Lived.readable (lived : earlier.Lived) (run : Run earlier sessions) :
    ∃ pruned : Pruned, sessions.Represents pruned ∧ ∃ inside, pruned.store.Readable inside ∧
      (∀ d, inside d → d < pruned.store.count) ∧ ∀ d, earlier.store.FolderReached d → inside d := by
  obtain ⟨pruned, holds⟩ := lived.represented
  obtain ⟨pruned', before, holds'⟩ := holds.run run
  refine ⟨pruned', holds', _, Pruned.readable_linked, ?_, fun d reached => ?_⟩
  · rintro d ⟨id, rfl, linked⟩
    have bound := linked.le
    rw [pruned'.count_store]
    exact_mod_cast Nat.lt_succ_of_le bound
  · rw [holds.store] at reached
    obtain ⟨id, rfl, kept⟩ := Pruned.reached_iff.mp reached
    exact ⟨id, rfl, before.linked kept.linked⟩

theorem calls_end (lived : earlier.Lived) (run : Run earlier sessions) (few : sessions.store.count ≤ 2 ^ 31) :
    (∀ (client : ι) (call : Call) (fuel : Nat), sessions.store.count ≤ fuel →
      (sessions.store.Baseless (sessions.contexts client) call.path →
        (call.program fuel (sessions.contexts client)).run execute sessions.store =
          (.error (.thrown (baselessMessage call.path)), sessions.store)) ∧
      (¬ sessions.store.Baseless (sessions.contexts client) call.path →
        ∃ answer after, (call.program fuel (sessions.contexts client)).run execute sessions.store =
          (.ok answer, after))) ∧
    (∀ (parserState : VfsPathParserState) (path : Text) (cwd : Int),
      earlier.store.FolderReached (origin cwd path) →
        ∃ code after, (vfsDeleteObjectWithPath parserState path cwd).run execute sessions.store =
          (.ok code, after)) ∧
    (sessions.store.NamesFit → sessions.store.LooksUp) := by
  obtain ⟨pruned, holds, inside, readable, below, there⟩ := lived.readable run
  have root : inside 0 := there 0 .root
  rw [holds.store] at few ⊢
  have narrow (d : Int) (here : inside d) : d < 2 ^ 31 := (below d here).trans_le few
  refine ⟨?_, ?_, Store.Shows.looksUp pruned.shows⟩
  · intro client call fuel enough
    obtain ⟨cwd, here⟩ := holds.contexts client
    rw [here]
    rcases readable.call_run root narrow call fuel cwd with ⟨fault, stops, run⟩ |
      ⟨based, ⟨result, cwd', run⟩ | ⟨kind, parentId, name, -, run⟩⟩
    · obtain ⟨baseless, rfl⟩ := stops.baseless fun d here => (below d here).le.trans enough
      exact ⟨fun _ => run, fun based => absurd baseless based⟩
    · exact ⟨fun baseless => absurd baseless based, fun _ => ⟨_, _, run⟩⟩
    · exact ⟨fun baseless => absurd baseless based, fun _ => ⟨_, _, run⟩⟩
  · intro parserState path cwd reached
    by_cases empty : path = []
    · subst empty
      have parsed : (vfsParsePath parserState [] ([] : Text).length cwd).run execute pruned.store =
          (.ok (-1, parserState), pruned.store) := rfl
      exact ⟨_, _, delete_run parsed⟩
    · have here := there _ reached
      exact ⟨_, _, delete_run (readable.parsePath_run empty here (readable.parsesWithin narrow here path) parserState)⟩

theorem reached_withFolder : withFolder.store.FolderReached 1 :=
  .child .root (by decide +kernel)

-- The folder is deleted, and something under it.
theorem calls_end_withoutFolder :
    (∀ (client : Unit) (call : Call) (fuel : Nat), withoutFolder.store.count ≤ fuel →
      (withoutFolder.store.Baseless (withoutFolder.contexts client) call.path →
        (call.program fuel (withoutFolder.contexts client)).run execute withoutFolder.store =
          (.error (.thrown (baselessMessage call.path)), withoutFolder.store)) ∧
      (¬ withoutFolder.store.Baseless (withoutFolder.contexts client) call.path →
        ∃ answer after, (call.program fuel (withoutFolder.contexts client)).run execute withoutFolder.store =
          (.ok answer, after))) ∧
    (∀ (parserState : VfsPathParserState) (path : Text) (cwd : Int),
      withFolder.store.FolderReached (origin cwd path) →
        ∃ code after, (vfsDeleteObjectWithPath parserState path cwd).run execute withoutFolder.store =
          (.ok code, after)) ∧
    (withoutFolder.store.NamesFit → withoutFolder.store.LooksUp) :=
  calls_end lived_withFolder run_withoutFolder (by decide +kernel)

theorem paths_read (lived : earlier.Lived) (run : Run earlier sessions) (few : sessions.store.count ≤ 2 ^ 31)
    {path : Text} {cwd : Int} (nonempty : path ≠ []) (reached : earlier.store.FolderReached (origin cwd path)) :
    (getDirIdFromPath cwd path).run execute sessions.store =
        (.ok ((sessions.store.view.leads (origin cwd path)
          (components (path.drop (pathLead path).length))).getD (-1)), sessions.store) ∧
      ∀ parserState, (vfsParsePath parserState path path.length cwd).run execute sessions.store =
        (.ok (sessions.store.parse (origin cwd path) path), sessions.store) := by
  obtain ⟨pruned, holds, inside, readable, below, there⟩ := lived.readable run
  rw [holds.store] at few ⊢
  have narrow (d : Int) (here : inside d) : d < 2 ^ 31 := (below d here).trans_le few
  exact ⟨readable.getDirId_run nonempty (there _ reached) (readable.within narrow (there _ reached) _),
    readable.parsePath_run nonempty (there _ reached) (readable.parsesWithin narrow (there _ reached) path)⟩

theorem paths_read_withoutFolder :
    (getDirIdFromPath 1 "..".toList).run execute withoutFolder.store =
        (.ok ((withoutFolder.store.view.leads (origin 1 "..".toList)
          (components ("..".toList.drop (pathLead "..".toList).length))).getD (-1)), withoutFolder.store) ∧
      ∀ parserState, (vfsParsePath parserState "..".toList "..".toList.length 1).run execute withoutFolder.store =
        (.ok (withoutFolder.store.parse (origin 1 "..".toList) "..".toList), withoutFolder.store) :=
  paths_read lived_withFolder run_withoutFolder (by decide +kernel) (by decide) reached_withFolder

end Sessions

end RedisVfs
