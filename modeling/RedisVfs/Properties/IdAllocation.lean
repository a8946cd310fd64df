import Mathlib.Data.Fintype.Basic
import RedisVfs.Concurrency.Allocating
import RedisVfs.Source.Contents

set_option autoImplicit false

namespace RedisVfs

open CString

variable {ι A : Type}

-- A client that reads the counter finds a number there that INCR accepts, and no client that has read
-- it before has still to increment it.
def Alone (pool : Clients ι A) (client : ι) : Prop :=
  (pool.clients client).Awaits (.get .currentIdCount) →
    pool.server.strings .currentIdCount ≠ none ∧ pool.server.Accepts ∧
      ∀ other, ¬ (pool.clients other).Awaits (.incr .currentIdCount)

instance [Fintype ι] (pool : Clients ι A) (client : ι) : Decidable (Alone pool client) :=
  inferInstanceAs (Decidable (_ → _ ∧ _ ∧ _))

variable [DecidableEq ι]

def Allocated (server : Store) (places : ι → Place) (log : Log ι) : Prop :=
  Counting server places log ∧ Spending places (newIds log) (pushedIds log) (writtenInfos log)

theorem allocated_keeps :
    (Place.protocol A).Keeps execute Alone (Allocated : Store → (ι → Place) → Log ι → Prop) := by
  intro pool places client command place' following ⟨counting, spending⟩ alone awaits move
  have range : ∀ id ∈ newIds pool.trace, LONG_MIN ≤ id ∧ id ≤ LONG_MAX := by
    intro id member
    obtain ⟨value, counts, low, below⟩ := counting.below member
    exact ⟨low, below.le.trans counts.2.2⟩
  generalize here : places client = place at move
  cases move with
  | read reads =>
    cases command with
    | hget | lrange =>
      exact ⟨counting.other rfl (fun _ => rfl) (by simp), spending.idle rfl⟩
    | _ => exact absurd reads id
  | get creation found =>
    obtain ⟨present, accepts, free⟩ := alone awaits
    obtain ⟨value, counts, bound⟩ := Store.counts_of_accepts present accepts
    have read : (execute pool.server (.get .currentIdCount)).1 = .string (printLd value) := by
      simp only [execute, Redis.execute, counts.1]
    rw [read] at found ⊢
    cases found
    rw [strtol_printLd counts.2.1 counts.2.2]
    refine ⟨counting.get counts bound ?_ ?_, spending.idle rfl⟩
    · simp [Redis.Reply.str, strtol_printLd counts.2.1 counts.2.2]
    · intro i creation' id counted
      have follows := following i
      rw [counted] at follows
      obtain ⟨next, -, program⟩ := follows
      exact free i (Program.awaits_iff.mpr ⟨_, program⟩)
  | getAbsent creation absent =>
    obtain ⟨present, -, -⟩ := alone awaits
    obtain ⟨str, held⟩ := Option.ne_none_iff_exists'.mp present
    simp [execute, Redis.execute, held, Redis.Reply.str] at absent
  | incr creation id =>
    obtain ⟨fresh, ids, counting'⟩ := counting.incr here
    refine ⟨counting', ?_⟩
    rw [ids]
    exact spending.allocate fresh
  | lpush creation id =>
    exact ⟨counting.other rfl (fun _ => rfl) (by simp), spending.push range here⟩
  | hmset creation id =>
    exact ⟨counting.other rfl (fun _ => rfl) (by simp), spending.write range here⟩

theorem id_allocation (store : Store) (clients : ι → Prog A)
    (creating : ∀ client, Creating (clients client)) (schedule : List ι)
    (alone : (Pool.start store clients).Obeys execute Alone schedule) :
    (newIds ((Pool.start store clients).run execute schedule).trace).Nodup ∧
      (writtenInfos ((Pool.start store clients).run execute schedule).trace).Nodup ∧
        (pushedIds ((Pool.start store clients).run execute schedule).trace).Nodup := by
  have start : Allocated store (fun _ : ι => .idle) ([] : Log ι) :=
    ⟨⟨by simp, by simp, by simp [newIds, Trace.collect], List.nodup_nil⟩,
      ⟨by simp [Place.held], by simp [Place.held], by simp [pushedIds], List.nodup_nil,
        by simp [writtenInfos], List.nodup_nil⟩⟩
  have idle : (Place.protocol A).Following (fun _ : ι => .idle) (Pool.start store clients) := creating
  obtain ⟨places, -, counting, spending⟩ := allocated_keeps.run idle start alone
  exact ⟨counting.distinct, spending.infosDistinct, spending.pushesDistinct⟩

-- The second client starts between the INCR and the LPUSH of the first.
theorem id_allocation_overtaken :
    let pool := (Pool.start builtStore (twoCreations (.mkdir 0 "a".toList) (.mkdir 0 "b".toList))).run
      execute [false, false, true, true, true, false, true, false]
    newIds pool.trace = [2, 1] ∧ (newIds pool.trace).Nodup ∧ (writtenInfos pool.trace).Nodup ∧
      (pushedIds pool.trace).Nodup :=
  ⟨by decide +kernel, id_allocation builtStore _ (twoCreations_creating _ _) _ (by decide +kernel)⟩

-- Both clients read the counter before either increments it.
theorem id_allocation_race :
    let pool := (Pool.start builtStore (twoCreations (.mkdir 0 "a".toList) (.mkdir 0 "b".toList))).run
      execute [false, true, false, true, false, true, false, true]
    (∀ client, Creating (twoCreations (.mkdir 0 "a".toList) (.mkdir 0 "b".toList) client)) ∧
      newIds pool.trace = [1, 1] ∧ writtenInfos pool.trace = [.folderInfo 1, .folderInfo 1] ∧
        pushedIds pool.trace = [['1'], ['1']] ∧ pool.server.folderName 1 = some ['b'] :=
  ⟨twoCreations_creating _ _, by decide +kernel, by decide +kernel, by decide +kernel, by decide +kernel⟩

end RedisVfs
