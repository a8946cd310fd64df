import RedisVfs.Refinement.Anywhere
import RedisVfs.Refinement.Building

set_option autoImplicit false

namespace RedisVfs

open CString

def Store.Passes (store : Store) (fuel : Nat) (context : FsContext) (path formattedPath : Text)
    (parserState : VfsPathParserState) : Prop :=
  (formatToValidPath fuel context path).run execute store = (.ok formattedPath, store) ∧
    ∃ cwdId result, (getCwdId context).run execute store = (.ok cwdId, store) ∧
      (vfsParsePath initVfsPathParserState formattedPath formattedPath.length cwdId).run execute store =
        (.ok (result, parserState), store) ∧ result ≠ -1

-- A child list has got an id in front that is not negative, and its hash holds what was asked for.
structure Linked (before after : Store) (creation : Creation) (id : Int) : Prop where
  positive : 0 ≤ id
  bound : id ≤ LONG_MAX
  listed : after.lists creation.list = printLu id :: before.lists creation.list
  written : ∀ entry ∈ creation.values,
    (after.hashes (creation.info id)).lookup entry.1 = some entry.2

def Unused (store : Store) (kind : Kind) (id : Int) : Prop :=
  store.hashes (infoKey kind (unsigned id)) = []

theorem Creation.made_written (creation : Creation) (store : Store) :
    ∀ entry ∈ creation.values,
      ((creation.made store).hashes (creation.info store.count)).lookup entry.1 = some entry.2 := by
  intro entry member
  rw [creation.made_info]
  cases creation with
  | mkdir parentId name =>
    simp only [values, List.mem_cons, List.not_mem_nil, or_false] at member
    rcases member with rfl | rfl | rfl <;> simp [values, Redis.setFields, Redis.lookup_setField]
  | createFile parentId name size googleId webUrl apiUrl =>
    simp only [values, List.mem_cons, List.not_mem_nil, or_false] at member
    rcases member with rfl | rfl | rfl | rfl | rfl | rfl <;>
      simp [values, Redis.setFields, Redis.lookup_setField]

theorem Creation.made_linked (creation : Creation) {store : Store} (positive : 0 ≤ store.count) :
    Linked store (creation.made store) creation store.count :=
  ⟨positive, store.count_range.2, creation.made_list store, creation.made_written store⟩

theorem Creation.linked_made {creation other : Creation} {store : Store} {id : Int}
    (linked : Linked store (creation.made store) other id) : id = store.count := by
  have listed := linked.listed
  by_cases same : other.list = creation.list
  · rw [same, creation.made_list] at listed
    have printed := decimal_injective (List.cons.inj listed).1
    have low : LONG_MIN ≤ id := le_trans (by decide) linked.positive
    exact (unsigned_inj store.count_range.1 store.count_range.2 low linked.bound printed).symm
  · have kept : (creation.made store).lists other.list = store.lists other.list := by
      simp [Creation.made, Function.update_of_ne same]
    rw [kept] at listed
    exact absurd listed.symm (List.cons_ne_self _ _)

theorem creator_true_iff {kind : Kind} {fuel : Nat} {context : FsContext} {path : Text}
    {store after : Store} :
    (creator kind fuel context path).run execute store = (.ok true, after) ↔
      ∃ formattedPath parserState, store.Passes fuel context path formattedPath parserState ∧
        after = (kind.creation parserState.parentId
          (formattedPath.drop parserState.nameOffset)).made store := by
  have creator : creator kind fuel context path = (do
      let formattedPath ← formatToValidPath fuel context path
      let cwdId ← getCwdId context
      let answer ← vfsParsePath initVfsPathParserState formattedPath formattedPath.length cwdId
      if answer.1 = -1 then return false
      else
        let _ ← (kind.creation answer.2.parentId (formattedPath.drop answer.2.nameOffset)).program
        return true) := by
    cases kind <;> rfl
  have last (formattedPath : Text) (answer : Int × VfsPathParserState) :
      (if answer.1 = -1 then (pure false : Prog Bool)
        else do
          let _ ← (kind.creation answer.2.parentId (formattedPath.drop answer.2.nameOffset)).program
          return true).run execute store = (.ok true, after) ↔
        answer.1 ≠ -1 ∧ after = (kind.creation answer.2.parentId
          (formattedPath.drop answer.2.nameOffset)).made store := by
    by_cases failed : answer.1 = -1
    · simp [failed]
    · rw [if_neg failed, Program.run_bind_ok execute (Creation.any_run _ store)]
      simp [failed, eq_comm]
  rw [creator]
  constructor
  · intro ran
    obtain ⟨formattedPath, formatted, ran⟩ := (reading_formatToValidPath _ _ _).bind_ok_iff.mp ran
    obtain ⟨cwdId, here, ran⟩ := Reading.bind_ok_iff (reading_dirIdFromPath _ _ _) |>.mp ran
    obtain ⟨answer, parsed, ran⟩ := (reading_parsePath _ _ _ _).bind_ok_iff.mp ran
    obtain ⟨passed, made⟩ := (last formattedPath answer).mp ran
    exact ⟨formattedPath, answer.2, ⟨formatted, cwdId, answer.1, here, parsed, passed⟩, made⟩
  · rintro ⟨formattedPath, parserState, ⟨formatted, cwdId, result, here, parsed, passed⟩, made⟩
    rw [Program.run_bind_ok execute formatted, Program.run_bind_ok execute here,
      Program.run_bind_ok execute parsed]
    exact (last formattedPath (result, parserState)).mpr ⟨passed, made⟩

-- Where a creator says true, it has linked an object of its kind with an id that is not negative.
def LinksOne (kind : Kind) (fuel : Nat) (context : FsContext) (path : Text) (store : Store) : Prop :=
  ∀ after, (creator kind fuel context path).run execute store = (.ok true, after) →
    ∃ parentId name id, Linked store after (kind.creation parentId name) id

def LinksNew (kind : Kind) (fuel : Nat) (context : FsContext) (path : Text) (store : Store) : Prop :=
  ∀ after, (creator kind fuel context path).run execute store = (.ok true, after) →
    ∃ parentId name id, Linked store after (kind.creation parentId name) id ∧ Unused store kind id

-- A creation without an id writes all the same, so it returns -1 over a changed store exactly if the
-- counter does not give it another number; and the wrapper returns true whatever the id is.
theorem failed_ids (store : Store) :
    (∀ creation : Creation, (∀ after, creation.program.run execute store = (.ok (-1), after) →
        after = store) ↔ store.count ≠ -1) ∧
      ∀ kind fuel context path,
        (LinksOne kind fuel context path store ↔
          ∀ formattedPath parserState, store.Passes fuel context path formattedPath parserState →
            0 ≤ store.count) ∧
        (LinksNew kind fuel context path store ↔
          ∀ formattedPath parserState, store.Passes fuel context path formattedPath parserState →
            0 ≤ store.count ∧ Unused store kind store.count) := by
  refine ⟨fun creation => ?_, fun kind fuel context path => ⟨?_, ?_⟩⟩
  · rw [creation.any_run]
    constructor
    · intro unchanged failed
      exact creation.made_ne store (unchanged _ (by rw [failed]))
    · intro allocated after ran
      exact absurd (Except.ok.inj (congrArg Prod.fst ran)) allocated
  · constructor
    · intro links formattedPath parserState passes
      obtain ⟨_, _, id, linked⟩ := links _ (creator_true_iff.mpr ⟨_, _, passes, rfl⟩)
      exact Creation.linked_made linked ▸ linked.positive
    · intro allocated after ran
      obtain ⟨_, _, passes, rfl⟩ := creator_true_iff.mp ran
      exact ⟨_, _, _, Creation.made_linked _ (allocated _ _ passes)⟩
  · constructor
    · intro links formattedPath parserState passes
      obtain ⟨_, _, id, linked, unused⟩ := links _ (creator_true_iff.mpr ⟨_, _, passes, rfl⟩)
      obtain rfl := Creation.linked_made linked
      exact ⟨linked.positive, unused⟩
    · intro allocated after ran
      obtain ⟨_, _, passes, rfl⟩ := creator_true_iff.mp ran
      obtain ⟨positive, unused⟩ := allocated _ _ passes
      exact ⟨_, _, _, Creation.made_linked _ positive, unused⟩

theorem passes_empty : Store.Passes Redis.Store.empty 0 { cwd := ['/'] } "/a".toList "/a".toList
    { initVfsPathParserState with
      nameOffset := 1, nameLength := 1, isExistingObject := false, parentId := 0 } := by
  have cwd : vfsGetDirIdFromPath ROOT_FOLDER_ID ['/'] 1 = pure 0 := by
    rw [vfsGetDirIdFromPath, walkLoop]
    rfl
  have walk : vfsGetDirIdFromPath ROOT_FOLDER_ID "/a".toList 2 = pure 0 := by
    change walkLoop initVfsPathParserState 0 ['a'] 1 = _
    rw [walkLoop]
    rfl
  refine ⟨rfl, 0, 0, congrArg (fun program => program.run execute Redis.Store.empty) cwd, ?_, by decide⟩
  change (vfsGetDirIdFromPath ROOT_FOLDER_ID "/a".toList 2 >>= _).run execute Redis.Store.empty = _
  rw [walk]
  rfl

-- In an empty store vfs_mkdir returns -1 and links it, and the wrapper says true.
theorem failed_ids_absent : ∃ after after' : Store,
    (vfsMkdir 0 "a".toList).run execute Redis.Store.empty = (.ok (-1), after) ∧
      after ≠ Redis.Store.empty ∧
      (mkdir 0 { cwd := ['/'] } "/a".toList).run execute Redis.Store.empty = (.ok true, after') ∧
      ∀ parentId name id, ¬ Linked Redis.Store.empty after' (.mkdir parentId name) id := by
  refine ⟨_, _, rfl, (Creation.mkdir 0 "a".toList).made_ne Redis.Store.empty,
    (@creator_true_iff .folder _ _ _ _ _).mpr ⟨_, _, passes_empty, rfl⟩, ?_⟩
  intro parentId name id linked
  have positive := linked.positive
  rw [Creation.linked_made linked] at positive
  revert positive
  decide

end RedisVfs
