import RedisVfs.Source.Schema

set_option autoImplicit false
set_option linter.style.nameCheck false

namespace RedisVfs

open CString

def getNewId : Prog Int := do
  let reply ← redisCommand (.get .currentIdCount)
  match reply.str with
  | none => return -1
  | some str =>
    let result := strtol str
    let _ ← redisCommand (.incr .currentIdCount)
    return result

def march7th : Text := "march 7th".toList

def __mkdir (parentId id : Int) (name : Text) : Prog Unit := do
  let _ ← redisCommand (.hmset (.folderInfo (unsigned id))
    [(.parent, printLu parentId), (.name, quoted name), (.createdData, quoted march7th)])

def vfsMkdir (parentId : Int) (name : Text) : Prog Int := do
  let id ← getNewId
  let _ ← redisCommand (.lpush (.folderFolders (unsigned parentId)) (printLu id))
  __mkdir parentId id name
  return id

def __createFile (id : Int) (name : Text) (size : Int) (googleId webUrl apiUrl : Text) :
    Prog Unit := do
  let _ ← redisCommand (.hmset (.fileInfo (unsigned id))
    [(.name, quoted name), (.size, quoted (printLu size)), (.createdData, quoted march7th),
      (.id, quoted googleId), (.webUrl, quoted webUrl), (.apiUrl, quoted apiUrl)])

def __addFileToFileList (folderId fileId : Int) : Prog Unit := do
  let _ ← redisCommand (.lpush (.folderFiles (unsigned folderId)) (printLu fileId))

def __addDirToFolderList (folderId fileId : Int) : Prog Unit := do
  let _ ← redisCommand (.lpush (.folderFolders (unsigned folderId)) (printLu fileId))

def __removeIdFromFileList (dirId removeId : Int) : Prog Unit := do
  let _ ← redisCommand (.lrem (.folderFiles dirId) (printLd removeId))

def __removeIdFromFolderList (dirId removeId : Int) : Prog Unit := do
  let _ ← redisCommand (.lrem (.folderFolders dirId) (printLd removeId))

def vfsCreateFile (parentId : Int) (name : Text) (size : Int) (googleId webUrl apiUrl : Text) :
    Prog Int := do
  let id ← getNewId
  __addFileToFileList parentId id
  __createFile id name size googleId webUrl apiUrl
  return id

-- `memcpy` takes the first characters of the buffer.
def vfsSetFileName (id : Int) (nameBuffer : Text) (nameBufferLength : Nat) : Prog Unit := do
  let tempPtr := nameBuffer.take nameBufferLength
  let _ ← redisCommand (.hset (.fileInfo (unsigned id)) .name (quoted tempPtr))

-- The output buffer is a string of any length.
def vfsGetFileName (id : Int) : Prog Text := do
  let reply ← redisCommand (.hget (.fileInfo (unsigned id)) .name)
  return unquoted (← dereference reply)

def vfsGetFileWebUrl (id : Int) : Prog Text := do
  let reply ← redisCommand (.hget (.fileInfo (unsigned id)) .apiUrl)
  return unquoted (← dereference reply)

def vfsGetFolderName (id : Int) : Prog Text := do
  let reply ← redisCommand (.hget (.folderInfo (unsigned id)) .name)
  return unquoted (← dereference reply)

def vfsGetDirParent (cwdId : Int) : Prog Int := do
  let reply ← redisCommand (.hget (.folderInfo (unsigned cwdId)) .parent)
  return strtol (← dereference reply)

def vfsSetDirParent (dirId newParent : Int) : Prog Unit := do
  let _ ← redisCommand (.hset (.folderInfo (unsigned dirId)) .parent (printLd newParent))

-- The loop has no break: the last match stays.
def findFileLoop (fileName : Text) (fileNameLength : Nat) (matchId : Int) : List Text → Prog Int
  | [] => return matchId
  | element :: elements => do
    let tempId := strtol element
    let nameBuffer ← vfsGetFileName tempId
    let length := max fileNameLength nameBuffer.length
    findFileLoop fileName fileNameLength
      (if strncmpEq fileName nameBuffer length then tempId else matchId) elements

-- `fileName` points into the path, so it runs on to the end of the whole path.
def vfsFindFileNameInDir (dirId : Int) (fileName : Text) (fileNameLength : Nat) : Prog Int := do
  let reply ← redisCommand (.lrange (.folderFiles (unsigned dirId)))
  findFileLoop fileName fileNameLength (-1) reply.elements

def findDirLoop (dirName : Text) (dirNameLength : Nat) : List Text → Prog Int
  | [] => return -1
  | element :: elements => do
    let tempId := strtol element
    let nameBuffer ← vfsGetFolderName tempId
    if strncmpEq dirName nameBuffer dirNameLength then return tempId
    else findDirLoop dirName dirNameLength elements

def vfsFindDirNameInDir (dirId : Int) (dirName : Text) (dirNameLength : Nat) : Prog Int :=
  if dirNameLength = 1 ∧ strncmpEq ['.'] dirName 1 then return dirId
  else if dirNameLength = 2 ∧ strncmpEq ['.', '.'] dirName 2 then vfsGetDirParent dirId
  else do
    let reply ← redisCommand (.lrange (.folderFolders (unsigned dirId)))
    findDirLoop dirName dirNameLength reply.elements

def vfsGetFileSizeFromId (id : Int) : Prog Int := do
  let reply ← redisCommand (.hget (.fileInfo (unsigned id)) .size)
  match reply.str with
  | none => return -1
  | some str => return strtol (str.drop 1)

-- `"%s   1 %s %s %10lu Jan  1  1980 %s\r\n"` with the user and the group "linux".
def unixLine (mode : Text) (size : Int) (name : Text) : Text :=
  mode ++ "   1 linux linux ".toList ++ (printLu size).leftpad 10 ' ' ++ " Jan  1  1980 ".toList ++
    name ++ "\r\n".toList

-- `while (currentId != 0)`: the parent is read from behind its first character.
def dirPathLoop : Nat → Int → Text → Prog Text
  | fuel, currentId, outputBuffer =>
      if currentId = 0 then return outputBuffer ++ ['/']
      else
        match fuel with
        | 0 => .fail .outOfFuel
        | fuel + 1 => do
          let buffer2 ← vfsGetFolderName currentId
          let buffer := '/' :: buffer2 ++ outputBuffer
          let parentIdReply ← redisCommand (.hget (.folderInfo (unsigned currentId)) .parent)
          let str ← dereference parentIdReply
          dirPathLoop fuel (strtol (str.drop 1)) buffer

def vfsGetDirPathFromId (fuel : Nat) (inputId : Int) : Prog Text := dirPathLoop fuel inputId []

def vfsBuildDatabase : Prog Unit := do
  let _ ← redisCommand .flushall
  __mkdir 0 0 "root".toList
  let _ ← redisCommand (.set .currentIdCount "1".toList)
  let _ ← redisCommand (.set .isVirtualFileSystemCreated "yes".toList)

def isVirtualFileSystemCreated : Prog Int := do
  match ← redisCommand (.existsKey .isVirtualFileSystemCreated) with
  | .integer value => return value
  | _ => return 0

end RedisVfs
