import RedisVfs.Source.Sessions

set_option autoImplicit false

namespace RedisVfs

open CString

variable {A : Type}

abbrev Reading (program : Prog A) : Prop := program.Only Reads

section Lookups

variable {allowed : Redis.Command Key Field → Prop}

theorem only_dereference (reply : Redis.Reply) : (dereference reply).Only allowed := by
  unfold dereference
  split
  · exact .pure _
  · exact .fail _

variable (gets : ∀ key field, allowed (.hget key field))

include gets

theorem only_fileName (id : Int) : (vfsGetFileName id).Only allowed :=
  (Program.Only.command (gets _ _)).bind fun reply => (only_dereference reply).bind fun _ => .pure _

theorem only_folderName (id : Int) : (vfsGetFolderName id).Only allowed :=
  (Program.Only.command (gets _ _)).bind fun reply => (only_dereference reply).bind fun _ => .pure _

theorem only_dirParent (id : Int) : (vfsGetDirParent id).Only allowed :=
  (Program.Only.command (gets _ _)).bind fun reply => (only_dereference reply).bind fun _ => .pure _

theorem only_findFileLoop (fileName : Text) (length : Nat) (elements : List Text) :
    ∀ matchId, (findFileLoop fileName length matchId elements).Only allowed := by
  induction elements with
  | nil => exact fun _ => .pure _
  | cons element elements ih => exact fun _ => (only_fileName gets _).bind fun _ => ih _

theorem only_findDirLoop (dirName : Text) (length : Nat) (elements : List Text) :
    (findDirLoop dirName length elements).Only allowed := by
  induction elements with
  | nil => exact .pure _
  | cons element elements ih =>
    refine (only_folderName gets _).bind fun nameBuffer => ?_
    split
    · exact .pure _
    · exact ih

variable {dirId : Int}

theorem only_findFile (files : allowed (.lrange (.folderFiles (unsigned dirId)))) (fileName : Text)
    (length : Nat) : (vfsFindFileNameInDir dirId fileName length).Only allowed :=
  (Program.Only.command files).bind fun _ => only_findFileLoop gets _ _ _ _

theorem only_findDir (folders : allowed (.lrange (.folderFolders (unsigned dirId)))) (dirName : Text)
    (length : Nat) : (vfsFindDirNameInDir dirId dirName length).Only allowed := by
  unfold vfsFindDirNameInDir
  split
  · exact .pure _
  · split
    · exact only_dirParent gets _
    · exact (Program.Only.command folders).bind fun _ => only_findDirLoop gets _ _ _

variable (files : allowed (.lrange (.folderFiles (unsigned dirId))))
  (folders : allowed (.lrange (.folderFolders (unsigned dirId))))

include files folders

theorem only_findObject (parserState : VfsPathParserState) (name : Text) (length : Nat) :
    (vfsFindObjectInDir parserState dirId name length).Only allowed := by
  refine (only_findFile gets files _ _).bind fun fileId => ?_
  split
  · exact .pure _
  · refine (only_findDir gets folders _ _).bind fun folderId => ?_
    dsimp only
    split <;> exact .pure _

theorem only_parseLastName (parserState : VfsPathParserState) (fullPath : Text) :
    (parseLastName parserState dirId fullPath).Only allowed := by
  unfold parseLastName
  split
  · refine (only_findObject gets files folders _ _ _).bind fun answer => ?_
    dsimp only
    split
    · exact .pure _
    · split
      · exact .pure _
      · exact (only_dirParent gets _).bind fun _ => .pure _
  · exact .pure _

end Lookups

theorem Reads.run_store {command : Redis.Command Key Field} (reads : Reads command) (store : Store) :
    (execute store command).2 = store := by
  cases command with
  | hget => rfl
  | lrange => rfl
  | _ => exact reads.elim

section Running

variable {B : Type} {program : Prog A}

theorem Reading.run_store (reading : Reading program) (store : Store) :
    (program.run execute store).2 = store :=
  reading.run_server (fun _ server reads => reads.run_store server) store

theorem Reading.bind_ok_iff (reading : Reading program) {f : A → Prog B} {store after : Store}
    {value : B} : (program >>= f).run execute store = (.ok value, after) ↔
      ∃ found, program.run execute store = (.ok found, store) ∧
        (f found).run execute store = (.ok value, after) := by
  have kept := reading.run_store store
  rw [Program.run_bind]
  cases ran : program.run execute store with
  | mk answer server =>
    rw [ran] at kept
    cases kept
    cases answer <;> simp

theorem Reading.run_eq (reading : Reading program) (store : Store) :
    program.run execute store = ((program.run execute store).1, store) :=
  Prod.ext rfl (reading.run_store store)

end Running

theorem reads_gets (key : Key) (field : Field) : Reads (.hget key field) := trivial

theorem reading_parentId (id : Int) : Reading (redisGetFolderParentId id) := by
  refine (Program.Only.command trivial).bind fun reply => ?_
  cases reply.str <;> exact .pure _

theorem reading_findObject (parserState : VfsPathParserState) (dirId : Int) (name : Text)
    (length : Nat) : Reading (vfsFindObjectInDir parserState dirId name length) :=
  only_findObject reads_gets trivial trivial _ _ _

theorem reading_walkLoop (parserState : VfsPathParserState) (currDir : Int) (currPtr : Text)
    (remainingLength : Nat) : Reading (walkLoop parserState currDir currPtr remainingLength) := by
  induction remainingLength using Nat.strongRecOn generalizing parserState currDir currPtr with
  | ind remainingLength ih =>
    unfold walkLoop
    dsimp only
    split
    · exact .pure _
    next more =>
      refine (reading_findObject _ _ _ _).bind fun answer => ?_
      split
      · exact .pure _
      · exact ih _ (by omega) _ _ _

theorem reading_dirIdFromPath (userCwd : Int) (path : Text) (length : Nat) :
    Reading (vfsGetDirIdFromPath userCwd path length) := by
  unfold vfsGetDirIdFromPath
  split <;> exact reading_walkLoop _ _ _ _

theorem reading_parseLastName (parserState : VfsPathParserState) (tempId : Int) (fullPath : Text) :
    Reading (parseLastName parserState tempId fullPath) :=
  only_parseLastName reads_gets trivial trivial _ _

theorem reading_parsePath (parserState : VfsPathParserState) (fullPath : Text) (length : Nat)
    (clientCwd : Int) : Reading (vfsParsePath parserState fullPath length clientCwd) := by
  unfold vfsParsePath
  split
  · exact .pure _
  · dsimp only
    generalize (if fullPath.head? = some '/' then ROOT_FOLDER_ID else clientCwd) = cwd
    generalize (if fullPath[length - 1]? = some '/' then length - 1 else length) = fixedPathLength
    split
    · exact .pure _
    · refine (reading_dirIdFromPath _ _ _).bind fun tempId => ?_
      split
      · exact .pure _
      · exact reading_parseLastName _ _ _

theorem reading_folderIdFromPath (context : FsContext) (path : Text) :
    Reading (getFolderIdFromPath context path) :=
  (reading_dirIdFromPath _ _ _).bind fun _ => reading_dirIdFromPath _ _ _

theorem reading_fileIdFromPath (context : FsContext) (path : Text) :
    Reading (getFileIdFromPath context path) := by
  refine (reading_dirIdFromPath _ _ _).bind fun cwd => (reading_parsePath _ _ _ _).bind fun answer => ?_
  dsimp only
  split
  · exact .pure _
  · split <;> exact .pure _

theorem reading_climbLoop (fuel : Nat) :
    ∀ (currentId : Int) (output : Text), Reading (climbLoop fuel currentId output) := by
  induction fuel with
  | zero =>
    intro currentId output
    unfold climbLoop
    split
    · exact .pure _
    · exact .fail _
  | succ fuel ih =>
    intro currentId output
    unfold climbLoop getNonRootFolderName
    split
    · exact .pure _
    · refine Program.Only.bind ?_ fun folderName => (reading_parentId _).bind fun _ => ih _ _
      split
      · exact .fail _
      · exact only_folderName reads_gets _

theorem reading_absolutePath (fuel : Nat) (folderId : Int) :
    Reading (getAbsolutePathFromFolderId fuel folderId) := by
  unfold getAbsolutePathFromFolderId
  split
  · exact .pure _
  · exact reading_climbLoop _ _ _

theorem reading_formatToValidPath (fuel : Nat) (context : FsContext) (initialPath : Text) :
    Reading (formatToValidPath fuel context initialPath) := by
  refine Program.Only.bind ?_ fun parentId => ?_
  · unfold getParentIdOfLeftSideOfExpression
    split
    · exact .fail _
    · split
      · exact .pure _
      · exact reading_folderIdFromPath _ _
  · split
    · exact .fail _
    · exact (reading_absolutePath _ _).bind fun _ => .pure _

end RedisVfs
