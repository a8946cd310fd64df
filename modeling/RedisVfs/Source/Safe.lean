import RedisVfs.Source.Schema

set_option autoImplicit false

namespace RedisVfs

open CString

def redisGetFileName (id : Int) : Prog Text := do
  let reply ← redisCommand (.hget (.fileInfo (unsigned id)) .name)
  return unquoted (← dereference reply)

def redisGetFolderName (id : Int) : Prog Text := do
  let reply ← redisCommand (.hget (.folderInfo (unsigned id)) .name)
  return unquoted (← dereference reply)

def redisGetFolderParentId (cwdId : Int) : Prog Int := do
  let reply ← redisCommand (.hget (.folderInfo (unsigned cwdId)) .parent)
  match reply.str with
  | none => return -1
  | some str => return strtol str

def redisGetFileParentId (cwdId : Int) : Prog Int := do
  let reply ← redisCommand (.hget (.fileInfo (unsigned cwdId)) .parent)
  match reply.str with
  | none => return -1
  | some str => return strtol str

def redisGetFileWebUrl (id : Int) : Prog Text := do
  let reply ← redisCommand (.hget (.fileInfo (unsigned id)) .apiUrl)
  dereference reply

def redisGetFileSizeFromId (id : Int) : Prog Int := do
  let reply ← redisCommand (.hget (.fileInfo (unsigned id)) .size)
  match reply.str with
  | none => return -1
  | some str => return strtol (str.drop 1)

def redisGetFolderIds (id : Int) : Prog (List Int) := do
  let reply ← redisCommand (.lrange (.folderFolders (unsigned id)))
  return reply.elements.map strtol

def redisGetFileIds (id : Int) : Prog (List Int) := do
  let reply ← redisCommand (.lrange (.folderFiles (unsigned id)))
  return reply.elements.map strtol

structure Folder where
  id : Int
  name : Text
  parentId : Int
  deriving DecidableEq

structure File where
  id : Int
  name : Text
  parentId : Int
  deriving DecidableEq

def redisGetFolder (id : Int) : Prog Folder := do
  let name ← redisGetFolderName id
  let parentId ← redisGetFolderParentId id
  return { id, name, parentId }

def redisGetFolders (id : Int) : Prog (List Folder) := do
  (← redisGetFolderIds id).mapM redisGetFolder

def redisGetFile (id : Int) : Prog File := do
  let name ← redisGetFileName id
  let parentId ← redisGetFileParentId id
  return { id, name, parentId }

def redisGetFiles (id : Int) : Prog (List File) := do
  (← redisGetFileIds id).mapM redisGetFile

def redisSetFolderParent (dirId newParent : Int) : Prog Unit := do
  let _ ← redisCommand (.hset (.folderInfo (unsigned dirId)) .parent (printLd newParent))

def redisIsDirectory (objId : Int) : Prog Int := do
  match ← redisCommand (.existsKey (.folderInfo (unsigned objId))) with
  | .integer value => return value
  | _ => return 0

end RedisVfs
