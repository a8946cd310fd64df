import RedisVfs.Refinement.Calling
import RedisVfs.Refinement.Parsing

set_option autoImplicit false

namespace RedisVfs

open CString

-- The lists hold numbers up to `n`, and what stands as a folder's parent is one too or too large for a long.
structure Store.Numbered (store : Store) (n : Nat) : Prop where
  listed : ∀ (d : Int), ∀ element ∈ store.lists (.folderFolders (unsigned d)),
    0 ≤ strtol element ∧ strtol element ≤ n
  above : ∀ (d : Int) (value : Text),
    (store.hashes (.folderInfo (unsigned d))).lookup .parent = some value →
      0 ≤ strtol value ∧ (strtol value ≤ n ∨ strtol value = LONG_MAX)

-- What a lookup answers once it is cut: an int that is a number up to `n` or a negative one.
def Ranged (n : Nat) (d : Int) : Prop := (-2 ^ 31 ≤ d ∧ d < 2 ^ 31) ∧ d ≤ n

theorem ranged_implicitInt {n : Nat} {id : Int} (low : -2 ^ 31 ≤ id) (high : id ≤ n ∨ id = LONG_MAX) :
    Ranged n (implicitInt id) := by
  refine ⟨implicitInt_range id, ?_⟩
  rcases high with within | rfl
  · exact (implicitInt_le low).trans within
  · have cut : implicitInt LONG_MAX = -1 := by decide
    omega

theorem Ranged.unsigned {n : Nat} {d : Int} (ranged : Ranged n d) (bounded : (n : Int) < LONG_MAX) :
    CString.unsigned d ≤ n ∨ 2 ^ 63 ≤ CString.unsigned d := by
  obtain ⟨low, high⟩ := ranged
  unfold LONG_MAX at bounded
  unfold CString.unsigned
  omega

theorem findDirLoop_ok {dirName : Text} {length : Nat} {elements : List Text} {store after : Store}
    {id : Int} (ran : (findDirLoop dirName length elements).run execute store = (.ok id, after)) :
    id = -1 ∨ ∃ element ∈ elements, id = strtol element := by
  induction elements with
  | nil =>
    obtain ⟨rfl, _⟩ := by simpa [findDirLoop, eq_comm] using ran
    exact .inl rfl
  | cons element elements ih =>
    rw [findDirLoop] at ran
    obtain ⟨name, _, ran⟩ := (Reading.bind_ok_iff (only_folderName reads_gets _)).mp ran
    split at ran
    · obtain ⟨rfl, _⟩ := by simpa using ran
      exact .inr ⟨element, by simp, rfl⟩
    · rcases ih ran with missing | ⟨other, member, same⟩
      · exact .inl missing
      · exact .inr ⟨other, by simp [member], same⟩

theorem findObject_ok {parserState : VfsPathParserState} {d : Int} {name : Text} {length : Nat}
    {answer : Int × VfsPathParserState} {store after : Store}
    (ran : (vfsFindObjectInDir parserState d name length).run execute store = (.ok answer, after)) :
    answer = (-1, parserState) ∨
      (∃ fileId, answer = (0, { parserState with id := fileId, isFilePath := true, isDir := false })) ∨
      ∃ folderId, (vfsFindDirNameInDir d name length).run execute store = (.ok folderId, after) ∧
        answer = (0, { parserState with id := implicitInt folderId, isFilePath := false, isDir := true }) := by
  obtain ⟨fileId, _, ran⟩ := (Reading.bind_ok_iff (only_findFile reads_gets trivial _ _)).mp ran
  split at ran
  · cases ran
    exact .inr (.inl ⟨fileId, rfl⟩)
  · obtain ⟨folderId, folder, ran⟩ := (Reading.bind_ok_iff (only_findDir reads_gets trivial _ _)).mp ran
    dsimp only at ran
    split at ran
    · cases ran
      exact .inr (.inr ⟨folderId, folder, rfl⟩)
    · cases ran
      exact .inl rfl

namespace Store.Numbered

variable {store after : Store} {n : Nat} (numbered : store.Numbered n)

include numbered

theorem dirParent {d p : Int} (ran : (vfsGetDirParent d).run execute store = (.ok p, after)) :
    0 ≤ p ∧ (p ≤ n ∨ p = LONG_MAX) := by
  rw [vfsGetDirParent, Program.run_bind_ok execute (run_redisCommand _ _)] at ran
  cases held : (store.hashes (.folderInfo (unsigned d))).lookup .parent with
  | none =>
    simp only [execute, Redis.execute, held, dereference, Redis.Reply.str] at ran
    cases ran
  | some value =>
    obtain rfl : strtol value = p := by
      simpa [execute, Redis.execute, held, dereference, Redis.Reply.str] using congrArg Prod.fst ran
    exact numbered.above d value held

theorem findDir {d id : Int} {name : Text} {length : Nat} (ranged : Ranged n d)
    (ran : (vfsFindDirNameInDir d name length).run execute store = (.ok id, after)) :
    Ranged n (implicitInt id) := by
  have range : -2 ^ 31 ≤ id ∧ (id ≤ n ∨ id = LONG_MAX) := by
    unfold vfsFindDirNameInDir at ran
    split at ran
    · cases ran
      exact ⟨ranged.1.1, .inl ranged.2⟩
    · split at ran
      · have above := numbered.dirParent ran
        exact ⟨by omega, above.2⟩
      · rw [Program.run_bind_ok execute (run_redisCommand _ _)] at ran
        rcases findDirLoop_ok ran with rfl | ⟨element, member, rfl⟩
        · omega
        · have bounds := numbered.listed d element member
          omega
  exact ranged_implicitInt range.1 range.2

theorem findObject {d : Int} {parserState : VfsPathParserState} {name : Text} {length : Nat}
    {answer : Int × VfsPathParserState} (ranged : Ranged n d)
    (ran : (vfsFindObjectInDir parserState d name length).run execute store = (.ok answer, after)) :
    answer = (-1, parserState) ∨ answer.2.isFilePath = true ∧ answer.2.isDir = false ∨ Ranged n answer.2.id := by
  rcases findObject_ok ran with missing | ⟨fileId, rfl⟩ | ⟨folderId, folder, rfl⟩
  · exact .inl missing
  · exact .inr (.inl ⟨rfl, rfl⟩)
  · exact .inr (.inr (numbered.findDir ranged folder))

theorem walkLoop {parserState : VfsPathParserState} {d r : Int} {currPtr : Text} {remainingLength : Nat}
    (ranged : Ranged n d)
    (ran : (RedisVfs.walkLoop parserState d currPtr remainingLength).run execute store = (.ok r, after)) :
    Ranged n r := by
  have lost : Ranged n (-1) := ⟨by omega, by omega⟩
  induction remainingLength using Nat.strongRecOn generalizing parserState d currPtr with
  | ind remainingLength ih =>
    unfold RedisVfs.walkLoop at ran
    dsimp only at ran
    split at ran
    · cases ran
      exact ranged
    · obtain ⟨answer, look, ran⟩ := (Reading.bind_ok_iff (reading_findObject _ _ _ _)).mp ran
      split at ran
      · cases ran
        exact lost
      next goes =>
        rcases numbered.findObject ranged look with rfl | file | there
        · simp at goes
        · simp [file.2] at goes
        · exact ih _ (by omega) there ran

end Store.Numbered

theorem parseLastName_ok {location : Location} {d result : Int} {parserState : VfsPathParserState}
    {store after : Store}
    (ran : (parseLastName location.parserState d location.text).run execute store =
      (.ok (result, parserState), after)) :
    parserState.nameOffset = location.offset ∧
      (location.last = [] ∧ parserState.parentId = -1 ∨ location.last ≠ [] ∧ (parserState.parentId = d ∨
        ∃ id p, (vfsGetDirParent (implicitInt id)).run execute store = (.ok p, store) ∧
          parserState.parentId = implicitInt p)) := by
  unfold parseLastName at ran
  rw [location.parserState_nameLength, location.parserState_nameOffset] at ran
  split at ran
  next named =>
    have named := List.length_pos_iff.mp named
    obtain ⟨answer, look, ran⟩ := (Reading.bind_ok_iff (reading_findObject _ _ _ _)).mp ran
    rcases findObject_ok look with rfl | ⟨fileId, rfl⟩ | ⟨folderId, -, rfl⟩
    · cases ran
      exact ⟨rfl, .inr ⟨named, .inl rfl⟩⟩
    · cases ran
      exact ⟨rfl, .inr ⟨named, .inl rfl⟩⟩
    · obtain ⟨p, parent, ran⟩ := (Reading.bind_ok_iff (only_dirParent reads_gets _)).mp ran
      cases ran
      exact ⟨rfl, .inr ⟨named, .inr ⟨folderId, p, parent, rfl⟩⟩⟩
  next unnamed =>
    cases ran
    exact ⟨rfl, .inl ⟨by simpa using unnamed, rfl⟩⟩

namespace Store

variable {store : Store} {n : Nat}

theorem parsed_name {d : Int} {body : Text} {result : Int} {parserState : VfsPathParserState}
    (parse : store.parsed d ('/' :: body) = .ok (result, parserState)) :
    ('/' :: body).drop parserState.nameOffset =
      match locate ('/' :: body) with
      | none => ['/']
      | some location => location.last ++ trail location.slash := by
  have ran : (vfsParsePath initVfsPathParserState ('/' :: body) ('/' :: body).length d).run execute store =
      (.ok (result, parserState), store) := (store.parsed_run d _).trans (by rw [parse])
  cases located : locate ('/' :: body) with
  | none =>
    obtain rfl := locate_root located
    cases ran
    rfl
  | some location =>
    rw [(locate_some located).1] at ran ⊢
    rw [location.parsePath_eq _ (Location.readsFrom located d)] at ran
    have offset : parserState.nameOffset = location.offset := by
      obtain ⟨tempId, _, ran⟩ := (Reading.bind_ok_iff (reading_walkLoop _ _ _ _)).mp ran
      split at ran
      · cases ran
        rfl
      · exact (parseLastName_ok ran).1
    simp only [offset]
    exact location.drop_offset

theorem parsed_ok {d : Int} {body : Text} {result : Int} {parserState : VfsPathParserState}
    (parse : store.parsed d ('/' :: body) = .ok (result, parserState)) (found : result ≠ -1) :
    locate ('/' :: body) = none ∧ parserState = rootParserState ∨ ∃ location tempId,
      locate ('/' :: body) = some location ∧ tempId ≠ -1 ∧
        (walkLoop initVfsPathParserState 0
            (Segments.unite '/' location.folders ++ (location.last ++ trail location.slash))
            ((Segments.unite '/' location.folders).length + location.last.length)).run execute store =
          (.ok tempId, store) ∧
        (parseLastName location.parserState tempId location.text).run execute store =
          (.ok (result, parserState), store) := by
  have ran : (vfsParsePath initVfsPathParserState ('/' :: body) ('/' :: body).length d).run execute store =
      (.ok (result, parserState), store) := (store.parsed_run d _).trans (by rw [parse])
  cases located : locate ('/' :: body) with
  | none =>
    obtain rfl := locate_root located
    cases ran
    exact .inl ⟨rfl, rfl⟩
  | some location =>
    have reads := Location.readsFrom located d
    rw [show origin d ('/' :: body) = 0 by simp [origin]] at reads
    rw [(locate_some located).1, location.parsePath_eq _ reads] at ran
    obtain ⟨tempId, walk, ran⟩ := (Reading.bind_ok_iff (reading_walkLoop _ _ _ _)).mp ran
    split at ran
    · cases ran
      exact absurd rfl found
    next known => exact .inr ⟨location, tempId, rfl, known, walk, ran⟩

theorem Numbered.parsed (numbered : store.Numbered n) {d : Int} {body : Text} {result : Int}
    {parserState : VfsPathParserState} (parse : store.parsed d ('/' :: body) = .ok (result, parserState))
    (found : result ≠ -1) :
    parserState.parentId = -1 ∧ ('/' :: body).drop parserState.nameOffset = ['/'] ∨
      Ranged n parserState.parentId ∧ Shaped (('/' :: body).drop parserState.nameOffset) := by
  rw [parsed_name parse]
  rcases parsed_ok parse found with ⟨located, rfl⟩ | ⟨location, tempId, located, _, walk, last⟩
  · rw [located]
    exact .inl ⟨rfl, rfl⟩
  · have there := numbered.walkLoop ⟨by omega, by omega⟩ walk
    rw [located]
    rcases (parseLastName_ok last).2 with ⟨unnamed, parent⟩ | ⟨named, parent⟩
    · have bare : trail location.slash = ['/'] := by rw [location.ends unnamed]; rfl
      exact .inl ⟨parent, by simp only [unnamed, bare, List.nil_append]⟩
    · refine .inr ⟨?_, ⟨_, _, named, location.lastFree, rfl⟩⟩
      rcases parent with same | ⟨id, p, above, same⟩
      · rw [same]
        exact there
      · have range := numbered.dirParent above
        rw [same]
        exact ranged_implicitInt (by omega) range.2

end Store

end RedisVfs
