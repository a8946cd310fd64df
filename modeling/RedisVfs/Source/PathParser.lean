import RedisVfs.Source.Vfs

set_option autoImplicit false

namespace RedisVfs

open CString

def ROOT_FOLDER_ID : Int := 0
def ROOT_PARENT_ID : Int := -1

structure VfsPathParserState where
  isExistingObject : Bool
  nameOffset : Nat
  nameLength : Nat
  isFilePath : Bool
  isDir : Bool
  isValid : Bool
  error : Int
  parentId : Int
  id : Int
  deriving DecidableEq

def initVfsPathParserState : VfsPathParserState where
  error := 0
  id := -1
  isDir := false
  isFilePath := false
  isValid := false
  nameLength := 0
  nameOffset := 0
  parentId := -1
  isExistingObject := true

-- Scans `length` characters backwards; `i` counts those passed before a '/'.
def scanBack (path : Text) : Nat → Nat → Nat × Nat
  | i, 0 => (i, 0)
  | i, length + 1 =>
      if path[length]? = some '/' then (i, length + 1) else scanBack path (i + 1) length

def vfsSeperatePathAndName (parserState : VfsPathParserState) (fullFilePath : Text)
    (fullFilePathLength : Nat) : VfsPathParserState :=
  let (nameLength, nameOffset) := scanBack fullFilePath 0 fullFilePathLength
  { parserState with nameLength, nameOffset }

-- The code and the parser state: 0 with the object found, -1 with the state as it was. vfs.h declares
-- vfs_findFileNameInDir, but not vfs_findDirNameInDir.
def vfsFindObjectInDir (parserState : VfsPathParserState) (dirId : Int) (name : Text)
    (nameLength : Nat) : Prog (Int × VfsPathParserState) := do
  let fileId ← vfsFindFileNameInDir dirId name nameLength
  if fileId ≠ -1 then
    return (0, { parserState with id := fileId, isFilePath := true, isDir := false })
  else
    let folderId := implicitInt (← vfsFindDirNameInDir dirId name nameLength)
    if folderId ≠ -1 then
      return (0, { parserState with id := folderId, isFilePath := false, isDir := true })
    else
      return (-1, parserState)

def getLengthOfNextName : Text → Nat → Nat
  | _, 0 => 0
  | [], remaining + 1 => remaining + 1
  | c :: path, remaining + 1 => if c = '/' then 0 else getLengthOfNextName path remaining + 1

-- `while (1)`: `currPtr` is what is left of the buffer, `remainingLength` what is left of the path.
def walkLoop (parserState : VfsPathParserState) (currDir : Int) (currPtr : Text)
    (remainingLength : Nat) : Prog Int :=
  let lengthOfNextName := getLengthOfNextName currPtr remainingLength
  if remainingLength ≤ lengthOfNextName then return currDir
  else do
    let (result, parserState) ← vfsFindObjectInDir parserState currDir currPtr lengthOfNextName
    if result ≠ 0 ∨ parserState.id = -1 ∨ parserState.isDir = false then return -1
    else
      walkLoop parserState parserState.id (currPtr.drop (lengthOfNextName + 1))
        (remainingLength - (lengthOfNextName + 1))
termination_by remainingLength
decreasing_by omega

def vfsGetDirIdFromPath (userCwd : Int) (path : Text) (pathLength : Nat) : Prog Int :=
  match path with
  | '/' :: currPtr => walkLoop initVfsPathParserState 0 currPtr (pathLength - 1)
  | _ => walkLoop initVfsPathParserState userCwd path pathLength

-- The end of `vfs_parsePath`: the last name is looked up in the folder `tempId`. vfs.h does not declare
-- vfs_getDirParent either.
def parseLastName (parserState : VfsPathParserState) (tempId : Int) (fullPath : Text) :
    Prog (Int × VfsPathParserState) :=
  if parserState.nameLength > 0 then do
    let (result, parserState) ← vfsFindObjectInDir parserState tempId
      (fullPath.drop parserState.nameOffset) parserState.nameLength
    if result ≠ 0 then
      return (0, { parserState with isExistingObject := false, parentId := tempId })
    else if parserState.isFilePath then
      return (0, { parserState with isExistingObject := true, parentId := tempId })
    else
      let parentId := implicitInt (← vfsGetDirParent parserState.id)
      return (0, { parserState with isExistingObject := true, parentId })
  else return (0, parserState)

def vfsParsePath (parserState : VfsPathParserState) (fullPath : Text) (fullPathLength : Nat)
    (clientCwd : Int) : Prog (Int × VfsPathParserState) :=
  if fullPathLength = 0 then return (-1, parserState)
  else
    let cwd := if fullPath.head? = some '/' then ROOT_FOLDER_ID else clientCwd
    let parserState := initVfsPathParserState
    let isLastCharSlash := fullPath[fullPathLength - 1]? = some '/'
    let fixedPathLength := if isLastCharSlash then fullPathLength - 1 else fullPathLength
    if cwd = ROOT_FOLDER_ID ∧ fixedPathLength = 0 then
      return (0, { parserState with
        id := ROOT_FOLDER_ID, parentId := ROOT_PARENT_ID, isDir := true, isFilePath := false })
    else do
      let parserState := vfsSeperatePathAndName parserState fullPath fixedPathLength
      let tempId ← vfsGetDirIdFromPath cwd fullPath fixedPathLength
      if tempId = -1 then return (-1, parserState)
      else parseLastName parserState tempId fullPath

-- `parserState` is what the uninitialised variable holds; the parser leaves it so for an empty path.
def vfsDeleteObjectWithPath (parserState : VfsPathParserState) (path : Text) (cwd : Int) : Prog Int := do
  let (_, parserState) ← vfsParsePath parserState path path.length cwd
  if parserState.isExistingObject = false then return -1
  else
    if parserState.isDir then __removeIdFromFolderList parserState.parentId parserState.id
    else if parserState.isFilePath then __removeIdFromFileList parserState.parentId parserState.id
    return 0

end RedisVfs
