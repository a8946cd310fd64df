import RedisVfs.Shared.Directory
import RedisVfs.Source.Schema

set_option autoImplicit false

namespace RedisVfs

open CString

namespace Store

def folderName (store : Store) (id : Int) : Option Text :=
  ((store.hashes (.folderInfo id)).lookup .name).map unquoted

def fileName (store : Store) (id : Int) : Option Text :=
  ((store.hashes (.fileInfo id)).lookup .name).map unquoted

def folderParent (store : Store) (id : Int) : Option Int :=
  ((store.hashes (.folderInfo id)).lookup .parent).map strtol

def folders (store : Store) (d : Int) : List Int := (store.lists (.folderFolders d)).map strtol

def files (store : Store) (d : Int) : List Int := (store.lists (.folderFiles d)).map strtol

-- The folders and names that the store holds, without the code that looks them up.
def view (store : Store) : Directory.View Int where
  folders := store.folders
  files d := (store.files d).map store.fileName
  name := store.folderName
  parent := store.folderParent

abbrev FolderReached (store : Store) (d : Int) : Prop := store.view.Reached 0 d

end Store

end RedisVfs
