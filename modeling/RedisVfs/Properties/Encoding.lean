import RedisVfs.Refinement.Anywhere

set_option autoImplicit false

namespace RedisVfs

open CString

def ParentReadsBack (store : Store) (write : Prog Unit) (dirId newParent : Int) : Prop :=
  ∃ store', write.run execute store = (.ok (), store') ∧
    (vfsGetDirParent dirId).run execute store' = (.ok newParent, store') ∧
      (redisGetFolderParentId dirId).run execute store' = (.ok newParent, store')

-- LRANGE gives the list with one new element in front, which reads as the id that was pushed.
def PushReadsBack (store : Store) (push : Prog Int) (list : Key) : Prop :=
  ∃ id element store', push.run execute store = (.ok id, store') ∧
    (redisCommand (.lrange list)).run execute store' =
      (.ok (.array (element :: store.lists list)), store') ∧ strtol element = id

def Removed (store : Store) (add remove : Prog Unit) (list : Key) (id : Int) : Prop :=
  ∃ store' store'', add.run execute store = (.ok (), store') ∧
    printLu id ∈ store'.lists list ∧ remove.run execute store' = (.ok (), store'') ∧
      printLu id ∉ store''.lists list

theorem parentReadsBack_iff {store store' : Store} {write : Prog Unit} {dirId newParent : Int}
    {value : Text} (written : write.run execute store = (.ok (), store'))
    (held : (store'.hashes (.folderInfo (unsigned dirId))).lookup .parent = some value) :
    ParentReadsBack store write dirId newParent ↔ strtol value = newParent := by
  have dirRun := vfsGetDirParent_run held
  have folderRun := redisGetFolderParentId_run held
  constructor
  · rintro ⟨_, ran, read, _⟩
    rw [written] at ran
    cases ran
    rw [dirRun] at read
    exact Except.ok.inj (congrArg Prod.fst read)
  · rintro rfl
    exact ⟨store', written, dirRun, folderRun⟩

theorem setDirParent_readsBack (store : Store) (dirId : Int) {newParent : Int}
    (low : LONG_MIN ≤ newParent) (high : newParent ≤ LONG_MAX) :
    ParentReadsBack store (vfsSetDirParent dirId newParent) dirId newParent := by
  refine (parentReadsBack_iff rfl ?_).mpr (strtol_printLd low high)
  simp [Redis.execute, Redis.lookup_setField]

theorem mkdir_readsBack_iff (store : Store) (id : Int) (name : Text) {parentId : Int}
    (low : LONG_MIN ≤ parentId) (high : parentId ≤ LONG_MAX) :
    ParentReadsBack store (__mkdir parentId id name) id parentId ↔ 0 ≤ parentId := by
  refine (parentReadsBack_iff rfl ?_).trans (strtol_printLu_iff low high)
  simp [Redis.execute, Redis.setFields, Redis.lookup_setField]

theorem pushReadsBack_iff {store store' : Store} {push : Prog Int} {list : Key} {id : Int}
    (pushed : push.run execute store = (.ok id, store'))
    (held : store'.lists list = printLu id :: store.lists list) (low : LONG_MIN ≤ id)
    (high : id ≤ LONG_MAX) : PushReadsBack store push list ↔ 0 ≤ id := by
  rw [← strtol_printLu_iff low high]
  constructor
  · rintro ⟨id', element, after, ran, read, same⟩
    rw [pushed] at ran
    cases ran
    rw [run_redisCommand] at read
    simp only [execute, Redis.execute, held, Prod.mk.injEq, Except.ok.injEq,
      Redis.Reply.array.injEq, List.cons.injEq, and_true] at read
    rw [read]
    exact same
  · intro same
    refine ⟨id, printLu id, store', pushed, ?_, same⟩
    rw [run_redisCommand]
    simp [execute, Redis.execute, held]

theorem creation_readsBack_iff (store : Store) (creation : Creation) :
    PushReadsBack store creation.program creation.list ↔ 0 ≤ store.count :=
  pushReadsBack_iff (creation.any_run store) (by simp) store.count_range.1 store.count_range.2

theorem removed_iff (store : Store) {add remove : Prog Unit} {keyOf : Int → Key} {d id : Int}
    (injective : Function.Injective keyOf)
    (added : add = (redisCommand (.lpush (keyOf (unsigned d)) (printLu id)) >>= fun _ => pure ()))
    (removed : remove = (redisCommand (.lrem (keyOf d) (printLd id)) >>= fun _ => pure ()))
    (high : d ≤ LONG_MAX) (lowId : LONG_MIN ≤ id) (highId : id ≤ LONG_MAX) :
    Removed store add remove (keyOf (unsigned d)) id ↔ 0 ≤ d ∧ 0 ≤ id := by
  have sameKey : keyOf (unsigned d) = keyOf d ↔ 0 ≤ d := by
    rw [injective.eq_iff]
    unfold unsigned LONG_MAX at *
    omega
  rw [← printLd_eq_printLu lowId highId, ← sameKey, added, removed]
  simp only [Removed, Program.run_bind, run_redisCommand, Program.run_pure, execute, Redis.execute,
    Prod.mk.injEq, true_and]
  constructor
  · rintro ⟨_, _, rfl, _, rfl, gone⟩
    by_cases key : keyOf (unsigned d) = keyOf d
    · simp only [key, Redis.Store.setList_lists, Function.update_self, List.mem_filter, List.mem_cons,
        true_or, true_and, ne_eq, decide_not, Bool.not_eq_eq_eq_not, Bool.not_true, decide_eq_false_iff_not,
        not_not] at gone
      exact ⟨key, gone.symm⟩
    · simp [Function.update_of_ne key] at gone
  · rintro ⟨key, printed⟩
    refine ⟨_, _, rfl, by simp, rfl, ?_⟩
    simp [← key, printed]

-- Every number the code uses as an id is read back exactly if it is not negative: the writers print
-- with %lu, but for the two that set a parent and the two that remove.
theorem ids_survive (store : Store) (name : Text) {d id : Int} (lowD : LONG_MIN ≤ d)
    (highD : d ≤ LONG_MAX) (lowId : LONG_MIN ≤ id) (highId : id ≤ LONG_MAX) :
    (ParentReadsBack store (__mkdir d id name) id d ↔ 0 ≤ d) ∧
    ParentReadsBack store (vfsSetDirParent id d) id d ∧
    ParentReadsBack store (redisSetFolderParent id d) id d ∧
    (PushReadsBack store (vfsMkdir d name) (.folderFolders (unsigned d)) ↔ 0 ≤ store.count) ∧
    (PushReadsBack store (__addDirToFolderList d id >>= fun _ => pure id)
      (.folderFolders (unsigned d)) ↔ 0 ≤ id) ∧
    (PushReadsBack store (__addFileToFileList d id >>= fun _ => pure id)
      (.folderFiles (unsigned d)) ↔ 0 ≤ id) ∧
    (Removed store (__addDirToFolderList d id) (__removeIdFromFolderList d id)
      (.folderFolders (unsigned d)) id ↔ 0 ≤ d ∧ 0 ≤ id) ∧
    (Removed store (__addFileToFileList d id) (__removeIdFromFileList d id)
      (.folderFiles (unsigned d)) id ↔ 0 ≤ d ∧ 0 ≤ id) :=
  ⟨mkdir_readsBack_iff store id name lowD highD,
    setDirParent_readsBack store id lowD highD,
    setDirParent_readsBack store id lowD highD,
    creation_readsBack_iff store (.mkdir d name),
    pushReadsBack_iff rfl (by simp [Redis.execute]) lowId highId,
    pushReadsBack_iff rfl (by simp [Redis.execute]) lowId highId,
    removed_iff store (fun _ _ => Key.folderFolders.inj) rfl rfl highD lowId highId,
    removed_iff store (fun _ _ => Key.folderFiles.inj) rfl rfl highD lowId highId⟩

theorem ids_survive_seven : ParentReadsBack freshStore (__mkdir 7 3 "a".toList) 3 7 ∧
    Removed freshStore (__addDirToFolderList 7 3) (__removeIdFromFolderList 7 3)
      (.folderFolders (unsigned 7)) 3 := by
  have survive := @ids_survive freshStore "a".toList 7 3 (by decide) (by decide) (by decide) (by decide)
  obtain ⟨parent, _, _, _, _, _, removed, _⟩ := survive
  exact ⟨parent.mpr (by decide), removed.mpr (by decide)⟩

-- The parent -1 is printed as 2^64 - 1 and read back as the end of the range of `long`.
theorem ids_survive_sentinel :
    ¬ ParentReadsBack freshStore (__mkdir ROOT_PARENT_ID 1 "/".toList) 1 ROOT_PARENT_ID ∧
      ¬ Removed freshStore (__addDirToFolderList 0 (-1)) (__removeIdFromFolderList 0 (-1))
        (.folderFolders (unsigned 0)) (-1) := by
  constructor
  · rintro ⟨_, ran, read, _⟩
    cases ran
    have parent := Except.ok.inj (congrArg Prod.fst read)
    revert parent
    decide
  · rintro ⟨_, _, added, _, removed, gone⟩
    cases added
    cases removed
    revert gone
    decide

end RedisVfs
