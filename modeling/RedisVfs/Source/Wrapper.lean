import RedisVfs.Source.PathParser
import RedisVfs.Source.Safe

set_option autoImplicit false

namespace RedisVfs

open CString

-- The connection is the program's server; what is left of the context is the working directory.
structure FsContext where
  cwd : Text
  deriving DecidableEq

def getParentIdById (childId : Int) : Prog Int := redisGetFolderParentId childId

def getDirIdFromPath (cwd : Int) (path : Text) : Prog Int :=
  let pathCpy := if path.getLast? ≠ some '/' then path ++ ['/'] else path
  vfsGetDirIdFromPath cwd pathCpy pathCpy.length

def getFolderIdFromAbsolutePath (absolutePath : Text) : Prog Int :=
  getDirIdFromPath ROOT_FOLDER_ID absolutePath

def getCwdId (context : FsContext) : Prog Int := getFolderIdFromAbsolutePath context.cwd

def getFolderIdFromPath (context : FsContext) (path : Text) : Prog Int := do
  let cwd ← getCwdId context
  getDirIdFromPath cwd path

def getFileIdFromPath (context : FsContext) (path : Text) : Prog Int := do
  let cwd ← getCwdId context
  let (result, parserState) ← vfsParsePath initVfsPathParserState path path.length cwd
  if result = -1 then return -1
  else if parserState.isFilePath = false then return -1
  else return parserState.id

def getNonRootFolderName (folderId : Int) : Prog Text :=
  if folderId = ROOT_FOLDER_ID then .fail (.thrown "Cannot get name of root folder.".toList)
  else redisGetFolderName folderId

-- `while (currentId != 0)`: the stored parents need not lead to the root, so the turns are counted.
def climbLoop : Nat → Int → Text → Prog Text
  | fuel, currentId, output =>
      if currentId = 0 then return output ++ ['/']
      else
        match fuel with
        | 0 => .fail .outOfFuel
        | fuel + 1 => do
          let folderName ← getNonRootFolderName currentId
          let parentId ← getParentIdById currentId
          climbLoop fuel parentId ('/' :: folderName ++ output)

def getAbsolutePathFromFolderId (fuel : Nat) (folderId : Int) : Prog Text :=
  if folderId = ROOT_FOLDER_ID then return ['/'] else climbLoop fuel folderId []

def removeAnyPathPrefix (path : Text) : Text :=
  if path.head? = some '/' then path.drop 1
  else if path.take 2 = ['.', '/'] then path.drop 2
  else path

def getParentIdOfLeftSideOfExpression (context : FsContext) (initialPath : Text) : Prog Int :=
  if initialPath.length = 0 then
    .fail (.thrown ("Could not get parent of invalid path: ".toList ++ initialPath ++ ['\n']))
  else if initialPath.head? = some '/' then return ROOT_FOLDER_ID
  else getFolderIdFromPath context context.cwd

def formatToValidPath (fuel : Nat) (context : FsContext) (initialPath : Text) : Prog Text := do
  let parentId ← getParentIdOfLeftSideOfExpression context initialPath
  if parentId = -1 then .fail (.thrown "failed to get left side of expression".toList)
  else
    let leftSide ← getAbsolutePathFromFolderId fuel parentId
    return leftSide ++ removeAnyPathPrefix initialPath

def getFiles (context : FsContext) (path : Text) : Prog (List File) := do
  redisGetFiles (← getFolderIdFromPath context path)

def getFolders (context : FsContext) (path : Text) : Prog (List Folder) := do
  redisGetFolders (← getFolderIdFromPath context path)

def lsPrettyPrint (context : FsContext) (path : Text) : Prog Text := do
  let files ← getFiles context path
  let folders ← getFolders context path
  return (folders.flatMap fun folder => folder.name ++ ['\n']) ++
    files.flatMap fun file => file.name ++ ['\n']

def getInitialContext : Prog FsContext := do
  if (← isVirtualFileSystemCreated) = 0 then vfsBuildDatabase
  return { cwd := ['/'] }

def mkdir (fuel : Nat) (context : FsContext) (initPath : Text) : Prog Bool := do
  let formattedPath ← formatToValidPath fuel context initPath
  let cwdId ← getCwdId context
  let (result, parserState) ←
    vfsParsePath initVfsPathParserState formattedPath formattedPath.length cwdId
  if result = -1 then return false
  else
    let _ ← vfsMkdir parserState.parentId (formattedPath.drop parserState.nameOffset)
    return true

def cd (fuel : Nat) (context : FsContext) (path : Text) : Prog (Bool × FsContext) := do
  let formattedPath ← formatToValidPath fuel context path
  let folderId ← getFolderIdFromPath context formattedPath
  if folderId = -1 then return (false, context)
  else
    let cwd ← getAbsolutePathFromFolderId fuel folderId
    return (true, { context with cwd })

def createFile (fuel : Nat) (context : FsContext) (path : Text) : Prog Bool := do
  let formattedPath ← formatToValidPath fuel context path
  let cwdId ← getCwdId context
  let (result, parserState) ←
    vfsParsePath initVfsPathParserState formattedPath formattedPath.length cwdId
  if result = -1 then return false
  else
    let _ ← vfsCreateFile parserState.parentId (formattedPath.drop parserState.nameOffset) 1
      "none".toList "https://none.com".toList "http://none".toList
    return true

inductive DirItemType where
  | DIR_ITEM_FOLDER
  | DIR_ITEM_FILE
  | DIR_ITEM_UNKNOWN
  | DIR_ITEM_ERROR
  deriving DecidableEq

-- A member that the source leaves uninitialised is none.
structure DirItemInfo where
  id : Int
  exists_ : Bool
  type : Option DirItemType
  parentId : Option Int
  name : Text
  deriving DecidableEq

def listDirFileAndFolderIds (dirId : Int) : Prog (List Int) := do
  let a ← redisGetFolderIds dirId
  let b ← redisGetFileIds dirId
  return a ++ b

def getDirItemInfo (objId : Int) : Prog DirItemInfo := do
  if (← redisIsDirectory objId) ≠ 0 then
    let parentId ← redisGetFolderParentId objId
    let name ← redisGetFolderName objId
    return { id := objId, exists_ := false, type := some .DIR_ITEM_FOLDER, parentId, name }
  else
    let parentId ← redisGetFileParentId objId
    let name ← redisGetFileName objId
    return { id := objId, exists_ := false, type := some .DIR_ITEM_FILE, parentId, name }

def lsInfo (dirId : Int) : Prog (List DirItemInfo) := do
  (← listDirFileAndFolderIds dirId).mapM getDirItemInfo

def ls (dirId : Int) : Prog (List Text) := do
  (← listDirFileAndFolderIds dirId).mapM fun id => do
    let info ← getDirItemInfo id
    return info.name

def lsPath (context : FsContext) (path : Text) : Prog (List Text) := do
  ls (← getFolderIdFromPath context path)

-- The overload of `getDirItemInfo` that takes a path.
def stat (context : FsContext) (absolutePath : Text) : Prog DirItemInfo := do
  let ret : DirItemInfo := { id := -1, exists_ := false, type := none, parentId := none, name := [] }
  let fileId ← if absolutePath.getLast? ≠ some '/' then getFileIdFromPath context absolutePath
    else pure (-1)
  if fileId ≠ -1 then
    let name ← redisGetFileName fileId
    return { ret with id := fileId, exists_ := true, type := some .DIR_ITEM_FILE, name }
  else
    let folderId ← getFolderIdFromPath context absolutePath
    if folderId = -1 then return ret
    else
      let name ← redisGetFolderName folderId
      return { ret with id := folderId, exists_ := true, type := some .DIR_ITEM_FOLDER, name }

end RedisVfs
