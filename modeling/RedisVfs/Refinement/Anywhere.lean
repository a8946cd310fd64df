import RedisVfs.Concurrency.Allocating
import RedisVfs.Concurrency.Calls
import RedisVfs.Refinement.Reading

set_option autoImplicit false

namespace RedisVfs

open CString

def Store.counted (store : Store) : Store :=
  if store.strings .currentIdCount = none then store else (execute store (.incr .currentIdCount)).2

@[simp] theorem Store.counted_lists (store : Store) : store.counted.lists = store.lists := by
  unfold Store.counted
  split
  · rfl
  · exact store.incr_lists.1

@[simp] theorem Store.counted_hashes (store : Store) : store.counted.hashes = store.hashes := by
  unfold Store.counted
  split
  · rfl
  · exact store.incr_lists.2

theorem Store.count_range (store : Store) : LONG_MIN ≤ store.count ∧ store.count ≤ LONG_MAX := by
  unfold Store.count
  split
  · decide
  · exact strtol_range _

theorem getNewId_any_run (store : Store) :
    getNewId.run execute store = (.ok store.count, store.counted) := by
  unfold Store.count Store.counted
  rw [getNewId, Program.run_bind_ok execute (run_redisCommand _ _)]
  cases held : store.strings .currentIdCount with
  | none => simp [execute, Redis.execute, held, Redis.Reply.str]
  | some str =>
    have get : execute store (.get .currentIdCount) = (.string str, store) := by
      simp [execute, Redis.execute, held]
    rw [get, if_neg (by simp)]
    exact Program.run_bind_ok execute (run_redisCommand _ _) _

def Creation.made (creation : Creation) (store : Store) : Store :=
  (store.counted.setList creation.list (printLu store.count :: store.lists creation.list)).setHash
    (creation.info store.count)
    (Redis.setFields (store.hashes (creation.info store.count)) creation.values)

theorem Creation.any_run (creation : Creation) (store : Store) :
    creation.program.run execute store = (.ok store.count, creation.made store) := by
  rw [creation.program_eq, Program.run_bind_ok execute (getNewId_any_run store), Creation.link,
    Program.run_bind_ok execute (run_redisCommand _ _), Creation.write,
    Program.run_bind_ok execute (run_redisCommand _ _)]
  simp [Creation.made, execute, Redis.execute]

@[simp] theorem Creation.made_list (creation : Creation) (store : Store) :
    (creation.made store).lists creation.list = printLu store.count :: store.lists creation.list := by
  simp [Creation.made]

@[simp] theorem Creation.made_info (creation : Creation) (store : Store) :
    (creation.made store).hashes (creation.info store.count) =
      Redis.setFields (store.hashes (creation.info store.count)) creation.values := by
  simp [Creation.made]

theorem Creation.made_ne (creation : Creation) (store : Store) : creation.made store ≠ store := by
  intro same
  have longer := congrArg (fun after => (after.lists creation.list).length) same
  simp at longer

def Kind.creation : Kind → Int → Text → Creation
  | .folder, parentId, name => .mkdir parentId name
  | .file, parentId, name =>
      .createFile parentId name 1 "none".toList "https://none.com".toList "http://none".toList

end RedisVfs
