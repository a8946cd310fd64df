import RedisVfs.Refinement.Building

set_option autoImplicit false

namespace RedisVfs

open CString

-- One object more: the counter goes up by one, the number it had is put in front of one list, an info
-- hash is added under a key that did not exist, and every other key holds what it held.
structure Store.ExtendedBy (store store' : Store) (kind : Kind) (d id : Nat) : Prop where
  counted : store.strings .currentIdCount = some (decimal id)
  counter : store'.strings =
    Function.update store.strings .currentIdCount (some (decimal (id + 1)))
  unlisted : ∀ key, decimal id ∉ store.lists key
  listed : store'.lists =
    Function.update store.lists (listKey kind d) (decimal id :: store.lists (listKey kind d))
  absent : store.has (infoKey kind id) = false
  added : ∃ hash, hash ≠ [] ∧ store'.hashes = Function.update store.hashes (infoKey kind id) hash

namespace History

theorem infoHash_ne_nil (entry : Journal.Entry Kind Text) : infoHash entry ≠ [] := by
  unfold infoHash
  cases entry.kind <;> simp [folderHash, fileHash]

end History

namespace Tree

variable (tree : Tree)

theorem created_extends (kind : Kind) (place : Nat × Text) :
    tree.store.ExtendedBy (tree.created kind place).store kind place.1 (tree.history.length + 1) where
  counted := History.store_count tree.history
  counter := rfl
  unlisted := by
    intro key member
    obtain ⟨kind, d, _, id, child, same⟩ := History.store_listed member
    have bound := Journal.children_le child
    have number := decimal_injective same
    omega
  listed := rfl
  absent := by
    rw [History.has_info, tree.newInfo_absent kind]
    rfl
  added := ⟨_, History.infoHash_ne_nil _, rfl⟩

theorem inserter_returns (kind : Kind) (parentId : Int) (name : Text) :
    ∃ id store, (inserter kind parentId name).run execute tree.store = (.ok id, store) := by
  have read : execute tree.store (.get .currentIdCount) =
      (.string (decimal (tree.history.length + 1)), tree.store) := by
    simp [execute, Redis.execute, History.store_count tree.history]
  have counted : ∃ id store, getNewId.run execute tree.store = (.ok id, store) := by
    rw [getNewId, Program.run_bind_ok execute (run_redisCommand _ _), read]
    exact ⟨_, _, Program.run_bind_ok execute (run_redisCommand _ _) _⟩
  obtain ⟨id, store, counted⟩ := counted
  cases kind with
  | folder =>
    rw [inserter, vfsMkdir, Program.run_bind_ok execute counted]
    exact ⟨_, _, rfl⟩
  | file =>
    rw [inserter, vfsCreateFile, Program.run_bind_ok execute counted]
    exact ⟨_, _, rfl⟩

theorem create_refused (kind : Kind) (fuel : Nat) (cwd path : Text) {store : Store} :
    (∀ fault, (creator kind fuel { cwd := '/' :: cwd } path).run execute tree.store =
      (.error fault, store) → store = tree.store) ∧
    ((creator kind fuel { cwd := '/' :: cwd } path).run execute tree.store = (.ok false, store) →
      store = tree.store) := by
  rw [tree.store.create_run kind fuel]
  split
  · simp [eq_comm]
  · simp [eq_comm]
  next parentId name _ =>
    obtain ⟨id, store', inserted⟩ := tree.inserter_returns kind parentId name
    rw [Program.run_bind_ok execute inserted]
    simp

theorem creator_ran {kind : Kind} {fuel : Nat} {cwd path : Text} {store : Store}
    {answer : Except Fault (Bool × FsContext)}
    (ran : ((kind.call path).program fuel { cwd := '/' :: cwd }).run execute tree.store =
      (answer, store)) :
    ∃ made, (creator kind fuel { cwd := '/' :: cwd } path).run execute tree.store = (made, store) ∧
      answer = made.map fun result => (result, { cwd := '/' :: cwd }) := by
  rw [creator_program, Program.run_bind] at ran
  cases run : (creator kind fuel { cwd := '/' :: cwd } path).run execute tree.store with
  | mk made store' =>
    rw [run] at ran
    cases made with
    | error fault =>
      obtain ⟨rfl, rfl⟩ := by simpa using ran
      exact ⟨_, rfl, rfl⟩
    | ok result =>
      obtain ⟨rfl, rfl⟩ := by simpa using ran
      exact ⟨_, rfl, rfl⟩

theorem cd_refused {fuel : Nat} {cwd path : Text} {context : FsContext} {store : Store}
    (ran : (cd fuel { cwd := '/' :: cwd } path).run execute tree.store = (.ok (false, context), store)) :
    store = tree.store ∧ context = { cwd := '/' :: cwd } := by
  rcases tree.cd_run_cases fuel cwd path with ⟨fault, run⟩ | run | ⟨cwd', -, run⟩
  · simp [run] at ran
  · rw [run] at ran
    cases ran
    exact ⟨rfl, rfl⟩
  · simp [run] at ran

end Tree

-- A call that throws or returns false leaves the store and the working directory as they were; a
-- creation that returns true adds one object and nothing else.
theorem conservative_extension {state : State} (reached : Reachable state) (fuel : Nat) (store : Store) :
    (∀ (call : Call) fault, (call.program fuel state.context).run execute state.store =
      (.error fault, store) → store = state.store) ∧
    (∀ (call : Call) context, (call.program fuel state.context).run execute state.store =
      (.ok (false, context), store) → store = state.store ∧ context = state.context) ∧
    ∀ (kind : Kind) path context, state.store.Accepts →
      ((kind.call path).program fuel state.context).run execute state.store =
        (.ok (true, context), store) →
          context = state.context ∧ ∃ d id, state.store.ExtendedBy store kind d id := by
  obtain ⟨tree, cwd, holds⟩ := reached.represented
  obtain rfl := holds.state_eq
  refine ⟨?_, ?_, ?_⟩
  · intro call fault ran
    rcases call_cases call with ⟨kind, path, rfl⟩ | ⟨path, rfl⟩
    · obtain ⟨made, run, same⟩ := tree.creator_ran ran
      cases made with
      | error fault' => exact (tree.create_refused kind fuel cwd path).1 fault' run
      | ok result => simp [Except.map] at same
    · exact (congrArg Prod.snd ((tree.store.cd_run fuel _ path).symm.trans ran)).symm
  · intro call context ran
    rcases call_cases call with ⟨kind, path, rfl⟩ | ⟨path, rfl⟩
    · obtain ⟨made, run, same⟩ := tree.creator_ran ran
      cases made with
      | error fault => simp [Except.map] at same
      | ok result =>
        obtain ⟨rfl, rfl⟩ := by simpa [Except.map] using same
        exact ⟨(tree.create_refused kind fuel cwd path).2 run, rfl⟩
    · exact tree.cd_refused ran
  · intro kind path context accepts ran
    obtain ⟨rfl, parentId, name, _, rfl⟩ := (tree.creation_true_iff accepts kind).mp ran
    exact ⟨rfl, _, _, tree.created_extends kind (unsigned parentId, name)⟩

theorem conservative_extension_nested : ∃ (state : State) (store : Store),
    state.store.strings .currentIdCount = some "2".toList ∧
      ((Call.createFile "/a/f".toList).program 0 state.context).run execute state.store =
        (.ok (true, state.context), store) ∧
          ∃ d id, state.store.ExtendedBy store .file d id := by
  obtain ⟨tree, history, reached⟩ := reachable_folder
  have placed : tree.history.placeOfPath "a/f".toList = some (1, "f".toList) := by rw [history]; decide
  have small : tree.Small := by simp [Tree.Small, history]
  obtain ⟨tree', _, ran⟩ := tree.create_absolute small [] .file placed
  refine ⟨⟨tree.store, { cwd := ['/'] }⟩, tree'.store, ?_, ran 0, ?_⟩
  · rw [History.store_count, history]
    decide
  · exact ((conservative_extension reached 0 tree'.store).2.2 .file "/a/f".toList _
      small.accepts (ran 0)).2

end RedisVfs
