import RedisVfs.Refinement.Parsing

set_option autoImplicit false

namespace RedisVfs

open CString

namespace Tree

variable (tree : Tree)

theorem accepts_iff : tree.store.Accepts ↔ (tree.history.length : Int) + 1 < LONG_MAX := by
  have count := History.store_count tree.history
  have parsed : Redis.parseInteger (decimal (tree.history.length + 1)) =
      some ((tree.history.length : Int) + 1) := by
    have bounded := tree.bounded
    exact_mod_cast Redis.parseInteger_decimal (n := tree.history.length + 1) (by omega)
  unfold Store.Accepts
  simp only [execute, Redis.execute, count, Option.getD_some, parsed]
  split <;> simp_all

theorem getNewId_run (accepts : tree.store.Accepts) :
    getNewId.run execute tree.store =
      (.ok ((tree.history.length + 1 : Nat) : Int),
        tree.store.setString .currentIdCount (decimal (tree.history.length + 1 + 1))) := by
  have room := tree.accepts_iff.mp accepts
  have count := History.store_count tree.history
  have read : execute tree.store (.get .currentIdCount) =
      (.string (decimal (tree.history.length + 1)), tree.store) := by
    simp [execute, Redis.execute, count]
  have number : strtol (decimal (tree.history.length + 1)) = ((tree.history.length + 1 : Nat) : Int) :=
    strtol_decimal_of_le (by push_cast; omega)
  have incremented := Redis.execute_incr_decimal count (by push_cast; omega)
  rw [getNewId, Program.run_bind_ok execute (run_redisCommand _ _), read]
  simp only [Redis.Reply.str]
  rw [Program.run_bind_ok execute (run_redisCommand _ _)]
  simp only [execute, incremented, number]
  rfl

theorem newId_unsigned (accepts : tree.store.Accepts) :
    unsigned ((tree.history.length + 1 : Nat) : Int) = tree.history.length + 1 := by
  have room := tree.accepts_iff.mp accepts
  exact unsigned_natCast (by push_cast; omega)

theorem newInfo_absent (kind : Kind) :
    tree.store.hashes (infoKey kind (tree.history.length + 1)) = [] := by
  refine History.store_info_none (by omega) fun entry found => ?_
  have := (Journal.entryAt_le found).2
  omega

theorem vfsMkdir_run (accepts : tree.store.Accepts) (parentId : Int) (name : Text) :
    (vfsMkdir parentId name).run execute tree.store =
      (.ok ((tree.history.length + 1 : Nat) : Int),
        History.store (⟨.folder, unsigned parentId, name⟩ :: tree.history)) := by
  have absent := tree.newInfo_absent .folder
  have number := tree.newId_unsigned accepts
  rw [vfsMkdir, Program.run_bind_ok execute (tree.getNewId_run accepts),
    Program.run_bind_ok execute (run_redisCommand _ _), Program.run_bind]
  simp only [infoKey] at absent
  simp only [__mkdir, run_redisCommand, Program.run_bind, Program.run_pure, execute, Redis.execute,
    number, printLu, Redis.Store.setList_hashes, Redis.Store.setString_hashes,
    Redis.Store.setString_lists, absent]
  rfl

theorem vfsCreateFile_run (accepts : tree.store.Accepts) (parentId : Int) (name : Text) :
    (vfsCreateFile parentId name 1 "none".toList "https://none.com".toList "http://none".toList).run
        execute tree.store =
      (.ok ((tree.history.length + 1 : Nat) : Int),
        History.store (⟨.file, unsigned parentId, name⟩ :: tree.history)) := by
  have absent := tree.newInfo_absent .file
  have number := tree.newId_unsigned accepts
  rw [vfsCreateFile, Program.run_bind_ok execute (tree.getNewId_run accepts), Program.run_bind]
  simp only [infoKey] at absent
  simp only [__addFileToFileList, __createFile, run_redisCommand, Program.run_bind, Program.run_pure,
    execute, Redis.execute, number, printLu, Redis.Store.setList_hashes,
    Redis.Store.setString_hashes, Redis.Store.setString_lists, absent]
  rfl

end Tree

end RedisVfs
