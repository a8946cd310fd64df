import RedisVfs.Properties.Removal
import RedisVfs.Refinement.Pruning
import RedisVfs.Source.Lifetimes

set_option autoImplicit false

namespace RedisVfs

open CString Directory

theorem delete_cases {store after : Store} {parserState : VfsPathParserState} {path : Text} {cwd code : Int}
    (ran : (vfsDeleteObjectWithPath parserState path cwd).run execute store = (.ok code, after)) :
    code ≠ 0 ∧ after = store ∨ code = 0 ∧ (after = store ∨
      ∃ kind dirId id, after = (execute store (.lrem (Kind.list kind dirId) (printLd id))).2) := by
  obtain ⟨⟨code', parserState'⟩, parsed, -⟩ :=
    (Reading.bind_ok_iff (reading_parsePath parserState path path.length cwd)).mp ran
  rw [delete_run parsed, Store.deleted] at ran
  split at ran
  · cases ran
    exact .inl ⟨show (-1 : Int) ≠ 0 by decide, rfl⟩
  · split at ran
    · cases ran
      exact .inr ⟨rfl, .inr ⟨.folder, _, _, rfl⟩⟩
    · split at ran
      · cases ran
        exact .inr ⟨rfl, .inr ⟨.file, _, _, rfl⟩⟩
      · cases ran
        exact .inr ⟨rfl, .inl rfl⟩

theorem Store.call_ends (store : Store) (call : Call) (fuel : Nat) (cwd : Text) :
    (∃ fault, (call.program fuel { cwd := '/' :: cwd }).run execute store = (.error fault, store)) ∨
    (∃ result cwd', (call.program fuel { cwd := '/' :: cwd }).run execute store =
      (.ok (result, { cwd := '/' :: cwd' }), store)) ∨
    ∃ kind parentId name, store.placing fuel { cwd := '/' :: cwd } call.path = .ok (some (parentId, name)) ∧
      (call.program fuel { cwd := '/' :: cwd }).run execute store =
        (.ok (true, { cwd := '/' :: cwd }), (Kind.creation kind parentId name).made store) := by
  rcases call_cases call with ⟨kind, path, rfl⟩ | ⟨path, rfl⟩
  · have run := store.create_run kind fuel { cwd := '/' :: cwd } path
    rw [creator_program, Kind.call_path]
    cases placed : store.placing fuel { cwd := '/' :: cwd } path with
    | error fault =>
      rw [placed] at run
      exact .inl ⟨fault, Program.run_bind_error execute run _⟩
    | ok place =>
      rw [placed] at run
      cases place with
      | none => exact .inr (.inl ⟨false, cwd, Program.run_bind_ok execute run _⟩)
      | some place =>
        obtain ⟨parentId, name⟩ := place
        have inserts : inserter kind parentId name = (Kind.creation kind parentId name).program := by
          cases kind <;> rfl
        have made := (Kind.creation kind parentId name).any_run store
        simp only [inserts, Program.run_bind_ok execute made] at run
        exact .inr (.inr ⟨kind, parentId, name, rfl, Program.run_bind_ok execute run _⟩)
  · have run := store.cd_run fuel { cwd := '/' :: cwd } path
    cases changed : store.changing fuel { cwd := '/' :: cwd } path with
    | error fault =>
      rw [changed] at run
      exact .inl ⟨fault, run⟩
    | ok text =>
      rw [changed] at run
      cases text with
      | none => exact .inr (.inl ⟨false, cwd, run⟩)
      | some text =>
        obtain ⟨cwd', rfl⟩ := Store.changing_absolute changed
        exact .inr (.inl ⟨true, cwd', run⟩)

namespace Pruned

variable {pruned : Pruned}

theorem start_run : getInitialContext.run execute pruned.store = (.ok { cwd := ['/'] }, pruned.store) := by
  have created : pruned.store.strings .isVirtualFileSystemCreated = some "yes".toList := by
    have held (history : History) : history.store.strings .isVirtualFileSystemCreated = some "yes".toList := by
      induction history with
      | nil => rfl
      | cons entry history ih => simpa [History.store, record] using ih
    exact held pruned.history
  have exists_ : isVirtualFileSystemCreated.run execute pruned.store = (.ok 1, pruned.store) := by
    rw [isVirtualFileSystemCreated, Program.run_bind_ok execute (run_redisCommand _ _)]
    simp [execute, Redis.execute, Redis.Store.has, created]
  rw [getInitialContext, Program.run_bind_ok execute exists_]
  rfl

end Pruned

namespace Sessions

variable {ι : Type}

-- The database is that of a tree with some objects taken out, and every working directory is absolute.
structure Represents (sessions : Sessions ι) (pruned : Pruned) : Prop where
  store : sessions.store = pruned.store
  contexts : ∀ client, ∃ cwd, sessions.contexts client = { cwd := '/' :: cwd }

variable [DecidableEq ι] {sessions sessions' : Sessions ι} {pruned : Pruned}

omit [DecidableEq ι] in
theorem represents_built (before : Store) : (built before : Sessions ι).Represents .fresh :=
  ⟨congrArg Prod.snd (build_run before), fun _ => ⟨[], rfl⟩⟩

theorem absolute_update {contexts : ι → FsContext}
    (absolute : ∀ client, ∃ cwd, contexts client = { cwd := '/' :: cwd })
    (client : ι) (cwd : Text) (other : ι) :
    ∃ cwd', Function.update contexts client { cwd := '/' :: cwd } other = { cwd := '/' :: cwd' } := by
  by_cases same : other = client
  · subst same
    exact ⟨cwd, Function.update_self _ _ _⟩
  · rw [Function.update_of_ne same]
    exact absolute other

theorem Represents.step (holds : sessions.Represents pruned) (step : Step sessions sessions') :
    ∃ pruned', Pruned.Before pruned pruned' ∧ sessions'.Represents pruned' := by
  cases step with
  | @call client call state step =>
    obtain ⟨cwd, here⟩ := holds.contexts client
    rw [holds.store, here] at step
    have ends (fuel : Nat) := pruned.store.call_ends call fuel cwd
    cases step with
    | @returned fuel result context store accepts ran =>
      rcases ends fuel with ⟨fault, run⟩ | ⟨result', cwd', run⟩ | ⟨kind, parentId, name, placed, run⟩
      · cases ran.symm.trans run
      · cases ran.symm.trans run
        exact ⟨pruned, .refl pruned, rfl, absolute_update holds.contexts client cwd'⟩
      · cases ran.symm.trans run
        let tree' := pruned.tree.extend kind (unsigned parentId, name) (Pruned.placing_takes placed)
          (Pruned.accepts_store.mp accepts)
        exact ⟨pruned.extend tree' rfl, Pruned.before_extend rfl, Pruned.made_store accepts rfl,
          absolute_update holds.contexts client cwd⟩
    | @threw fuel message store accepts ran =>
      have same : store = pruned.store := by
        rcases ends fuel with ⟨fault, run⟩ | ⟨result', cwd', run⟩ | ⟨kind, parentId, name, -, run⟩
        all_goals cases ran.symm.trans run
        rfl
      exact ⟨pruned, .refl pruned, same, absolute_update holds.contexts client cwd⟩
  | @start client context store ran =>
    rw [holds.store, Pruned.start_run] at ran
    cases ran
    exact ⟨pruned, .refl pruned, rfl, absolute_update holds.contexts client []⟩
  | delete ran =>
    rw [holds.store] at ran
    rcases delete_cases ran with ⟨-, rfl⟩ | ⟨-, rfl | ⟨kind, dirId, id, rfl⟩⟩
    · exact ⟨pruned, .refl pruned, rfl, holds.contexts⟩
    · exact ⟨pruned, .refl pruned, rfl, holds.contexts⟩
    · rcases @Pruned.lrem_store pruned (Kind.list kind dirId) (printLd id) with
        same | ⟨_, _, _, listed, -, -, less⟩
      · exact ⟨pruned, .refl pruned, same, holds.contexts⟩
      · exact ⟨pruned.remove listed, Pruned.before_remove listed, less, holds.contexts⟩

theorem Represents.run (holds : sessions.Represents pruned) (run : Run sessions sessions') :
    ∃ pruned', Pruned.Before pruned pruned' ∧ sessions'.Represents pruned' := by
  induction run with
  | refl => exact ⟨pruned, .refl pruned, holds⟩
  | tail _ step ih =>
    obtain ⟨middle, before, holds'⟩ := ih
    obtain ⟨pruned', before', holds''⟩ := holds'.step step
    exact ⟨pruned', before.trans before', holds''⟩

theorem Lived.represented (lived : sessions.Lived) : ∃ pruned, sessions.Represents pruned := by
  obtain ⟨before, run⟩ := lived
  obtain ⟨pruned, -, holds⟩ := (represents_built before).run run
  exact ⟨pruned, holds⟩

end Sessions

structure Store.WellKept (store : Store) : Prop where
  counted : ∃ n : Nat, store.strings .currentIdCount = some (decimal n) ∧
    ∀ key, ∀ element ∈ store.lists key, ∃ id, element = decimal id ∧ 0 < id ∧ id < n
  newestFirst : ∀ key, (store.lists key).Pairwise fun element older => strtol older < strtol element
  once : ∀ key key' element, element ∈ store.lists key → element ∈ store.lists key' → key = key'
  described : ∀ key, ∀ element ∈ store.lists key, ∃ kind, ∃ d id : Nat, ∃ name, key = listKey kind d ∧
    element = decimal id ∧ (store.hashes (infoKey kind id)).lookup .name = some (quoted name) ∧
      (kind = .folder → (store.hashes (infoKey kind id)).lookup .parent = some (decimal d)) ∧
        (d < id ∨ 2 ^ 63 ≤ d)

namespace Pruned

theorem wellKept (pruned : Pruned) : pruned.store.WellKept where
  counted := by
    refine ⟨pruned.history.length + 1, History.store_count pruned.history, fun key element member => ?_⟩
    obtain ⟨kind, d, rfl, id, listed, rfl⟩ := pruned.store_listed member
    have bounds := Journal.children_le (mem_children.mp listed).1
    exact ⟨id, rfl, bounds.1, Nat.lt_succ_of_le bounds.2⟩
  newestFirst key := by
    by_cases list : ∃ kind d, key = listKey kind d
    · obtain ⟨kind, d, rfl⟩ := list
      have decreasing := (Journal.children_decreasing pruned.history kind d).filter (· ∉ pruned.gone)
      rw [store_list, List.pairwise_map]
      refine decreasing.imp_of_mem fun {id older} here there less => ?_
      rw [@strtol_child _ kind d _ here, @strtol_child _ kind d _ there]
      exact_mod_cast less
    · have empty : pruned.store.lists key = [] :=
        List.eq_nil_iff_forall_not_mem.mpr fun element member => by
          obtain ⟨kind, d, same, -⟩ := pruned.store_listed member
          exact list ⟨kind, d, same⟩
      rw [empty]
      exact .nil
  once key key' element member member' := by
    obtain ⟨kind, d, rfl, id, listed, rfl⟩ := pruned.store_listed member
    obtain ⟨kind', d', rfl, id', listed', same⟩ := pruned.store_listed member'
    obtain rfl := decimal_injective same
    obtain ⟨entry, found, rfl, rfl⟩ := Journal.mem_children.mp (mem_children.mp listed).1
    obtain ⟨entry', found', rfl, rfl⟩ := Journal.mem_children.mp (mem_children.mp listed').1
    cases found.symm.trans found'
    rfl
  described key element member := by
    obtain ⟨kind, d, rfl, id, listed, rfl⟩ := pruned.store_listed member
    refine ⟨kind, d, id, _, rfl, rfl, info_name listed, fun folder => ?_, parent_of_listed listed⟩
    subst folder
    exact info_parent listed

end Pruned

namespace Sessions

variable {ι : Type} [DecidableEq ι] {sessions sessions' : Sessions ι}

theorem lived_wellKept (lived : sessions.Lived) : sessions.store.WellKept := by
  obtain ⟨pruned, holds⟩ := lived.represented
  rw [holds.store]
  exact pruned.wellKept

def callAfter (store : Store) (call : Call) : Store :=
  ((call.program 0 { cwd := ['/'] }).run execute store).2

theorem lived_callAfter {store : Store} (lived : (⟨store, fun _ => { cwd := ['/'] }⟩ : Sessions Unit).Lived)
    {call : Call} (accepts : store.Accepts)
    (ran : ((call.program 0 { cwd := ['/'] }).run execute store).1 = .ok (true, { cwd := ['/'] })) :
    (⟨callAfter store call, fun _ => { cwd := ['/'] }⟩ : Sessions Unit).Lived := by
  have step := @Step.call Unit _ ⟨store, fun _ => { cwd := ['/'] }⟩ () call _
    (@RedisVfs.Step.returned ⟨store, { cwd := ['/'] }⟩ call 0 true _ _ accepts (Prod.ext ran rfl))
  obtain ⟨before, run⟩ := lived
  refine ⟨before, run.trans (.single ?_)⟩
  exact step

-- The folders "/a" and "/b" and the file "/f" are made, and then "/a" is deleted.
def withFolder : Sessions Unit :=
  ⟨callAfter (callAfter (callAfter freshStore (.mkdir "/a".toList)) (.mkdir "/b".toList)) (.createFile "/f".toList),
    fun _ => { cwd := ['/'] }⟩

def withoutFolder : Sessions Unit :=
  ⟨((vfsDeleteObjectWithPath initVfsPathParserState "/a".toList 0).run execute withFolder.store).2,
    withFolder.contexts⟩

theorem lived_withFolder : withFolder.Lived := by
  have fresh : (⟨freshStore, fun _ => { cwd := ['/'] }⟩ : Sessions Unit).Lived := ⟨.empty, .refl⟩
  have first := @lived_callAfter _ fresh (.mkdir "/a".toList) (by decide +kernel) (by decide +kernel)
  have second := @lived_callAfter _ first (.mkdir "/b".toList) (by decide +kernel) (by decide +kernel)
  exact lived_callAfter second (by decide +kernel) (by decide +kernel)

theorem run_withoutFolder : Run withFolder withoutFolder :=
  .single (@Step.delete Unit _ withFolder initVfsPathParserState "/a".toList 0 0 _
    (Prod.ext (by decide +kernel) rfl))

theorem Lived.run (lived : sessions.Lived) (run : Run sessions sessions') : sessions'.Lived :=
  lived.imp fun _ begun => begun.trans run

theorem lived_wellKept_withoutFolder : withoutFolder.store.folders 0 = [2] ∧ withoutFolder.store.files 0 = [3] ∧
    withoutFolder.store.WellKept :=
  ⟨by decide +kernel, by decide +kernel, lived_wellKept (lived_withFolder.run run_withoutFolder)⟩

theorem never_back (lived : sessions.Lived) (run : Run sessions sessions') :
    sessions.store.count ≤ sessions'.store.count ∧ ∀ id : Nat, (id : Int) < sessions.store.count →
      (∀ key, decimal id ∈ sessions'.store.lists key → decimal id ∈ sessions.store.lists key) ∧
      (sessions'.store.FolderReached id → sessions.store.FolderReached id) ∧
      ∀ kind, sessions'.store.hashes (infoKey kind id) = sessions.store.hashes (infoKey kind id) := by
  obtain ⟨pruned, holds⟩ := lived.represented
  obtain ⟨pruned', before, holds'⟩ := holds.run run
  obtain ⟨entries, grown⟩ := before.history
  rw [holds.store, holds'.store, pruned.count_store, pruned'.count_store]
  refine ⟨?_, fun id old => ⟨fun key listed => ?_, fun reached => ?_, fun kind => ?_⟩⟩
  · rw [grown, List.length_append]
    push_cast
    omega
  · obtain ⟨kind, d, rfl, id', listed', same⟩ := pruned'.store_listed listed
    obtain rfl := decimal_injective same
    rw [pruned.store_list]
    exact List.mem_map_of_mem (before.children (by omega) listed')
  · obtain ⟨id', same, kept⟩ := Pruned.reached_iff.mp reached
    obtain rfl : id = id' := by exact_mod_cast same
    exact Pruned.reached_iff.mpr ⟨id, rfl, before.kept (by omega) kept⟩
  · rw [Pruned.store_hashes, Pruned.store_hashes, Tree.store, Tree.store]
    change pruned'.history.store.hashes _ = _
    rw [grown]
    exact Pruned.hash_append entries kind (by omega)

theorem never_back_withoutFolder :
    withFolder.store.count ≤ withoutFolder.store.count ∧
      ∀ id : Nat, (id : Int) < withFolder.store.count →
        (∀ key, decimal id ∈ withoutFolder.store.lists key → decimal id ∈ withFolder.store.lists key) ∧
        (withoutFolder.store.FolderReached id → withFolder.store.FolderReached id) ∧
        ∀ kind, withoutFolder.store.hashes (infoKey kind id) = withFolder.store.hashes (infoKey kind id) :=
  never_back lived_withFolder run_withoutFolder

end Sessions

end RedisVfs
