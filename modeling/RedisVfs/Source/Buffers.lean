import RedisVfs.Source.Vfs

set_option autoImplicit false

namespace RedisVfs

open CString

-- What stops a call that writes into buffers. The functions of vfs.c that do are modelled once more
-- below with the sizes of their buffers: to write more than there is room for is a failure of its own.
inductive BufferFault where
  | stopped (fault : Fault)
  | overflow
  deriving DecidableEq

abbrev BufferProg := Program (Redis.Command Key Field) Redis.Reply BufferFault

namespace Buffered

def MAX_FILENAME_SIZE : Nat := 10000

-- `malloc(20000)` in vfs_listUnixStyle.
def LINE_SIZE : Nat := 20000

variable {A : Type}

def plain (program : Prog A) : BufferProg A := program.mapFail .stopped

-- `sprintf`, `strcpy` and `strcat` do not look at the size of what they write into.
def write (bufferLength : Nat) (text : Text) : BufferProg Text :=
  if text.length < bufferLength then pure text else .fail .overflow

-- The length that the getters are given is not used; it is the size of the buffer.
def vfsGetFileName (id : Int) (outputNameBufferLength : Nat) : BufferProg Text := do
  write outputNameBufferLength (← plain (RedisVfs.vfsGetFileName id))

def vfsGetFolderName (id : Int) (outputNameBufferLength : Nat) : BufferProg Text := do
  write outputNameBufferLength (← plain (RedisVfs.vfsGetFolderName id))

def findFileLoop (fileName : Text) (fileNameLength : Nat) (matchId : Int) :
    List Text → BufferProg Int
  | [] => return matchId
  | element :: elements => do
    let tempId := strtol element
    let nameBuffer ← vfsGetFileName tempId MAX_FILENAME_SIZE
    let length := max fileNameLength nameBuffer.length
    findFileLoop fileName fileNameLength
      (if strncmpEq fileName nameBuffer length then tempId else matchId) elements

def vfsFindFileNameInDir (dirId : Int) (fileName : Text) (fileNameLength : Nat) : BufferProg Int := do
  let reply ← plain (redisCommand (.lrange (.folderFiles (unsigned dirId))))
  findFileLoop fileName fileNameLength (-1) reply.elements

def findDirLoop (dirName : Text) (dirNameLength : Nat) : List Text → BufferProg Int
  | [] => return -1
  | element :: elements => do
    let tempId := strtol element
    let nameBuffer ← vfsGetFolderName tempId MAX_FILENAME_SIZE
    if strncmpEq dirName nameBuffer dirNameLength then return tempId
    else findDirLoop dirName dirNameLength elements

def vfsFindDirNameInDir (dirId : Int) (dirName : Text) (dirNameLength : Nat) : BufferProg Int :=
  if dirNameLength = 1 ∧ strncmpEq ['.'] dirName 1 then return dirId
  else if dirNameLength = 2 ∧ strncmpEq ['.', '.'] dirName 2 then plain (vfsGetDirParent dirId)
  else do
    let reply ← plain (redisCommand (.lrange (.folderFolders (unsigned dirId))))
    findDirLoop dirName dirNameLength reply.elements

def vfsLs (dirId : Int) : BufferProg (List Text) := do
  let reply ← plain (redisCommand (.lrange (.folderFolders (unsigned dirId))))
  let folders ← reply.elements.mapM fun element => do
    let name ← vfsGetFolderName (strtol element) MAX_FILENAME_SIZE
    return "ls: ".toList ++ name ++ ['\n']
  let reply ← plain (redisCommand (.lrange (.folderFiles (unsigned dirId))))
  let files ← reply.elements.mapM fun element => do
    let name ← vfsGetFileName (strtol element) MAX_FILENAME_SIZE
    return "ls: ".toList ++ name ++ ['\n']
  return folders ++ files

def folderLine (line element : Text) : BufferProg Text := do
  let name ← vfsGetFolderName (strtol element) MAX_FILENAME_SIZE
  write LINE_SIZE (line ++ unixLine "drwxrwxr-x".toList 1 name)

def fileLine (line element : Text) : BufferProg Text := do
  let name ← vfsGetFileName (strtol element) MAX_FILENAME_SIZE
  let size ← plain (vfsGetFileSizeFromId (strtol element))
  write LINE_SIZE (line ++ unixLine "-rwxrwxr-x".toList size name)

def vfsListUnixStyle (dirId : Int) : BufferProg Text := do
  let reply ← plain (redisCommand (.lrange (.folderFolders (unsigned dirId))))
  let line ← reply.elements.foldlM folderLine []
  let reply ← plain (redisCommand (.lrange (.folderFiles (unsigned dirId))))
  reply.elements.foldlM fileLine line

-- `buffer`, `buffer2` and `outputBuffer` have the same size.
def dirPathLoop (outputBufferLength : Nat) : Nat → Int → Text → BufferProg Text
  | fuel, currentId, outputBuffer =>
      if currentId = 0 then write outputBufferLength (outputBuffer ++ ['/'])
      else
        match fuel with
        | 0 => .fail (.stopped .outOfFuel)
        | fuel + 1 => do
          let buffer2 ← vfsGetFolderName currentId outputBufferLength
          let buffer ← write outputBufferLength ('/' :: buffer2 ++ outputBuffer)
          let outputBuffer ← write outputBufferLength buffer
          let parentIdReply ← plain (redisCommand (.hget (.folderInfo (unsigned currentId)) .parent))
          let str ← plain (dereference parentIdReply)
          dirPathLoop outputBufferLength fuel (strtol (str.drop 1)) outputBuffer

def vfsGetDirPathFromId (fuel : Nat) (inputId : Int) (outputBufferLength : Nat) : BufferProg Text := do
  let outputBuffer ← write outputBufferLength []
  dirPathLoop outputBufferLength fuel inputId outputBuffer

end Buffered

end RedisVfs
