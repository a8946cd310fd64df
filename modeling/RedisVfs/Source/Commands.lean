import RedisVfs.Source.Format
import RedisVfs.Source.Schema

set_option autoImplicit false

namespace RedisVfs

open CString Hiredis

def Field.text : Field → Text
  | .parent => "parent".toList
  | .name => "name".toList
  | .createdData => "createdData".toList
  | .size => "size".toList
  | .id => "id".toList
  | .webUrl => "webUrl".toList
  | .apiUrl => "apiUrl".toList

def argv : Redis.Command Key Field → List Text
  | .get key => ["GET".toList, key.text]
  | .set key value => ["SET".toList, key.text, value]
  | .incr key => ["INCR".toList, key.text]
  | .existsKey key => ["EXISTS".toList, key.text]
  | .lpush key element => ["LPUSH".toList, key.text, element]
  | .lrem key element => ["LREM".toList, key.text, "0".toList, element]
  | .lrange key => ["LRANGE".toList, key.text, "0".toList, "-1".toList]
  | .hset key field value => ["HSET".toList, key.text, field.text, value]
  | .hmset key values => "HMSET".toList :: key.text :: values.flatMap fun entry => [entry.1.text, entry.2]
  | .hget key field => ["HGET".toList, key.text, field.text]
  | .flushall => ["FLUSHALL".toList]

-- A call of redisCommand in vfs.c or vfs_safe.cc, with its arguments behind the format.
inductive CallSite where
  | getCount
  | incrCount
  | makeFolder (id parentId : Int) (name createdData : Text)
  | pushFolder (parentId id : Int)
  | makeFile (id : Int) (name : Text) (size : Int) (createdData googleId webUrl apiUrl : Text)
  | pushFile (folderId fileId : Int)
  | removeFile (dirId removeId : Int)
  | removeFolder (dirId removeId : Int)
  | setFileName (id : Int) (tempPtr : Text)
  | fileName (id : Int)
  | fileApiUrl (id : Int)
  | fileSize (id : Int)
  | fileParent (id : Int)
  | folderName (id : Int)
  | folderParent (id : Int)
  | setFolderParent (dirId newParent : Int)
  | folders (dirId : Int)
  | files (dirId : Int)
  | filesOfListing (dirId : Int)
  | flush
  | setCount
  | setCreated
  | existsCreated
  | existsFile (objId : Int)
  | existsFolder (objId : Int)

namespace CallSite

def format : CallSite → Text
  | getCount => "GET current_id_count".toList
  | incrCount => "INCR current_id_count".toList
  | makeFolder _ _ _ _ => "HMSET FOLDER_%lu_info  parent %lu name \"%s\" createdData \"%s\"".toList
  | pushFolder _ _ => "LPUSH FOLDER_%lu_folders %lu".toList
  | makeFile _ _ _ _ _ _ _ =>
      "HMSET FILE_%lu_info name \"%s\" size \"%lu\" createdData \"%s\" id \"%s\" webUrl \"%s\" apiUrl \"%s\" ".toList
  | pushFile _ _ => "LPUSH FOLDER_%lu_files %lu".toList
  | removeFile _ _ => "LREM FOLDER_%ld_files 0 %ld".toList
  | removeFolder _ _ => "LREM FOLDER_%ld_folders 0 %ld".toList
  | setFileName _ _ => "HSET FILE_%lu_info name \"%s\"".toList
  | fileName _ => "HGET FILE_%lu_info name".toList
  | fileApiUrl _ => "HGET FILE_%lu_info apiUrl".toList
  | fileSize _ => "HGET FILE_%lu_info size".toList
  | fileParent _ => "HGET FILE_%lu_info parent".toList
  | folderName _ => "HGET FOLDER_%lu_info name".toList
  | folderParent _ => "HGET FOLDER_%lu_info parent".toList
  | setFolderParent _ _ => "HSET FOLDER_%lu_info parent %ld".toList
  | folders _ => "LRANGE FOLDER_%lu_folders 0 -1".toList
  | files _ => "LRANGE FOLDER_%lu_files 0 -1".toList
  | filesOfListing _ => "LRANGE FOLDER_%lu_files   0 -1".toList
  | flush => "FLUSHALL".toList
  | setCount => "SET current_id_count 1".toList
  | setCreated => "SET isVirtualFileSystemCreated yes".toList
  | existsCreated => "EXISTS isVirtualFileSystemCreated".toList
  | existsFile _ => "EXISTS FILE_%lu_info".toList
  | existsFolder _ => "EXISTS FOLDER_%lu_info".toList

def args : CallSite → List Arg
  | makeFolder id parentId name createdData => [.long id, .long parentId, .string name, .string createdData]
  | pushFolder parentId id => [.long parentId, .long id]
  | makeFile id name size createdData googleId webUrl apiUrl =>
      [.long id, .string name, .long size, .string createdData, .string googleId, .string webUrl,
        .string apiUrl]
  | pushFile folderId fileId => [.long folderId, .long fileId]
  | removeFile dirId removeId => [.long dirId, .long removeId]
  | removeFolder dirId removeId => [.long dirId, .long removeId]
  | setFileName id tempPtr => [.long id, .string tempPtr]
  | setFolderParent dirId newParent => [.long dirId, .long newParent]
  | fileName id | fileApiUrl id | fileSize id | fileParent id => [.long id]
  | folderName id | folderParent id => [.long id]
  | folders dirId | files dirId | filesOfListing dirId => [.long dirId]
  | existsFile objId | existsFolder objId => [.long objId]
  | getCount | incrCount | flush | setCount | setCreated | existsCreated => []

def command : CallSite → Redis.Command Key Field
  | getCount => .get .currentIdCount
  | incrCount => .incr .currentIdCount
  | makeFolder id parentId name createdData =>
      .hmset (.folderInfo (unsigned id))
        [(.parent, printLu parentId), (.name, quoted name), (.createdData, quoted createdData)]
  | pushFolder parentId id => .lpush (.folderFolders (unsigned parentId)) (printLu id)
  | makeFile id name size createdData googleId webUrl apiUrl =>
      .hmset (.fileInfo (unsigned id))
        [(.name, quoted name), (.size, quoted (printLu size)), (.createdData, quoted createdData),
          (.id, quoted googleId), (.webUrl, quoted webUrl), (.apiUrl, quoted apiUrl)]
  | pushFile folderId fileId => .lpush (.folderFiles (unsigned folderId)) (printLu fileId)
  | removeFile dirId removeId => .lrem (.folderFiles dirId) (printLd removeId)
  | removeFolder dirId removeId => .lrem (.folderFolders dirId) (printLd removeId)
  | setFileName id tempPtr => .hset (.fileInfo (unsigned id)) .name (quoted tempPtr)
  | fileName id => .hget (.fileInfo (unsigned id)) .name
  | fileApiUrl id => .hget (.fileInfo (unsigned id)) .apiUrl
  | fileSize id => .hget (.fileInfo (unsigned id)) .size
  | fileParent id => .hget (.fileInfo (unsigned id)) .parent
  | folderName id => .hget (.folderInfo (unsigned id)) .name
  | folderParent id => .hget (.folderInfo (unsigned id)) .parent
  | setFolderParent dirId newParent => .hset (.folderInfo (unsigned dirId)) .parent (printLd newParent)
  | folders dirId => .lrange (.folderFolders (unsigned dirId))
  | files dirId | filesOfListing dirId => .lrange (.folderFiles (unsigned dirId))
  | flush => .flushall
  | setCount => .set .currentIdCount "1".toList
  | setCreated => .set .isVirtualFileSystemCreated "yes".toList
  | existsCreated => .existsKey .isVirtualFileSystemCreated
  | existsFile objId => .existsKey (.fileInfo (unsigned objId))
  | existsFolder objId => .existsKey (.folderInfo (unsigned objId))

end CallSite

end RedisVfs
