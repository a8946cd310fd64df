import RedisVfs.Refinement.Calling
import RedisVfs.Refinement.Viewing
import RedisVfs.Source.Fuse

set_option autoImplicit false

namespace RedisVfs

open CString

namespace History

def folderRecord (history : History) (id : Nat) : Folder :=
  { id, name := history.name id, parentId := strtol (decimal (history.parent id)) }

def fileRecord (history : History) (id : Nat) : File :=
  { id, name := history.name id, parentId := -1 }

def folderInfo (history : History) (id : Nat) : DirItemInfo where
  id := id
  exists_ := false
  type := some .DIR_ITEM_FOLDER
  parentId := some (strtol (decimal (history.parent id)))
  name := history.name id

def fileInfo (history : History) (id : Nat) : DirItemInfo where
  id := id
  exists_ := false
  type := some .DIR_ITEM_FILE
  parentId := some (-1)
  name := history.name id

def folderNames (history : History) (d : Nat) : List Text := (history.childFolders d).map history.name

def fileNames (history : History) (d : Nat) : List Text := (history.childFiles d).map history.name

end History

namespace Tree

variable (tree : Tree)

section Child

variable {d id : Nat}

theorem childFolder_held (member : id ∈ tree.history.childFolders d) :
    tree.store.hashes (.folderInfo (unsigned (id : Int))) =
      folderHash (tree.history.parent id) (tree.history.name id) := by
  obtain ⟨entry, found, kind, _⟩ := Journal.mem_children.mp member
  rw [tree.number (Journal.entryAt_le found).2]
  exact tree.folder_held (.inr ⟨entry, found, kind⟩)

theorem childFile_held (member : id ∈ tree.history.childFiles d) :
    tree.store.hashes (.fileInfo (unsigned (id : Int))) = fileHash (tree.history.name id) := by
  obtain ⟨entry, found, kind, _⟩ := Journal.mem_children.mp member
  have held := History.store_info_some found
  rw [tree.number (Journal.entryAt_le found).2]
  rw [kind] at held
  change tree.store.hashes (.fileInfo id) = _ at held
  rw [held, infoHash, kind, History.name, Journal.name_of_entry found]

theorem isDirectory_folder_run (member : id ∈ tree.history.childFolders d) :
    (redisIsDirectory id).run execute tree.store = (.ok 1, tree.store) := by
  have held := tree.childFolder_held member
  rw [redisIsDirectory, Program.run_bind_ok execute (run_redisCommand _ _)]
  simp [execute, Redis.execute, Redis.Store.has, held, folderHash]

theorem isDirectory_file_run (member : id ∈ tree.history.childFiles d) :
    (redisIsDirectory id).run execute tree.store = (.ok 0, tree.store) := by
  obtain ⟨entry, found, kind, _⟩ := Journal.mem_children.mp member
  have bounds := Journal.entryAt_le found
  have absent : tree.store.hashes (infoKey .folder id) = [] := by
    apply History.store_info_none (by omega)
    intro entry' found' folder
    rw [found] at found'
    cases found'
    simp [kind] at folder
  have missing := History.has_info tree.history .folder id
  rw [absent] at missing
  change tree.store.has (.folderInfo id) = false at missing
  rw [redisIsDirectory, Program.run_bind_ok execute (run_redisCommand _ _), tree.number bounds.2]
  simp [execute, Redis.execute, missing]

theorem redisGetFolderParentId_child_run (member : id ∈ tree.history.childFolders d) :
    (redisGetFolderParentId id).run execute tree.store =
      (.ok (strtol (decimal (tree.history.parent id))), tree.store) :=
  redisGetFolderParentId_run (by rw [tree.childFolder_held member]; rfl)

theorem redisGetFileParentId_child_run (member : id ∈ tree.history.childFiles d) :
    (redisGetFileParentId id).run execute tree.store = (.ok (-1), tree.store) := by
  have nil : execute tree.store (.hget (.fileInfo (unsigned (id : Int))) .parent) =
      (.nil, tree.store) := by
    simp only [execute, Redis.execute, tree.childFile_held member]
    rfl
  rw [redisGetFileParentId, Program.run_bind_ok execute (run_redisCommand _ _), nil]
  rfl

theorem fileSize_child_run (member : id ∈ tree.history.childFiles d) :
    (vfsGetFileSizeFromId id).run execute tree.store = (.ok 1, tree.store) := by
  have held : (tree.store.hashes (.fileInfo (unsigned (id : Int)))).lookup .size =
      some (quoted (printLu 1)) := by
    rw [tree.childFile_held member]
    rfl
  rw [vfsGetFileSizeFromId, Program.run_bind_ok execute (hget_run held)]
  rfl

theorem redisGetFolder_run (member : id ∈ tree.history.childFolders d) :
    (redisGetFolder id).run execute tree.store =
      (.ok (tree.history.folderRecord id), tree.store) := by
  have nameRun : (redisGetFolderName id).run execute tree.store = _ := tree.folder_name_run member
  rw [redisGetFolder, Program.run_bind_ok execute nameRun,
    Program.run_bind_ok execute (tree.redisGetFolderParentId_child_run member)]
  rfl

theorem redisGetFile_run (member : id ∈ tree.history.childFiles d) :
    (redisGetFile id).run execute tree.store = (.ok (tree.history.fileRecord id), tree.store) := by
  have nameRun : (redisGetFileName id).run execute tree.store = _ := tree.file_name_run member
  rw [redisGetFile, Program.run_bind_ok execute nameRun,
    Program.run_bind_ok execute (tree.redisGetFileParentId_child_run member)]
  rfl

theorem getDirItemInfo_folder_run (member : id ∈ tree.history.childFolders d) :
    (getDirItemInfo id).run execute tree.store = (.ok (tree.history.folderInfo id), tree.store) := by
  have nameRun : (redisGetFolderName id).run execute tree.store = _ := tree.folder_name_run member
  rw [getDirItemInfo, Program.run_bind_ok execute (tree.isDirectory_folder_run member),
    if_pos (by decide), Program.run_bind_ok execute (tree.redisGetFolderParentId_child_run member),
    Program.run_bind_ok execute nameRun]
  rfl

theorem getDirItemInfo_file_run (member : id ∈ tree.history.childFiles d) :
    (getDirItemInfo id).run execute tree.store = (.ok (tree.history.fileInfo id), tree.store) := by
  have nameRun : (redisGetFileName id).run execute tree.store = _ := tree.file_name_run member
  rw [getDirItemInfo, Program.run_bind_ok execute (tree.isDirectory_file_run member),
    if_neg (by decide), Program.run_bind_ok execute (tree.redisGetFileParentId_child_run member),
    Program.run_bind_ok execute nameRun]
  rfl

end Child

end Tree

-- What the lists of a folder number hold, and what is read of each object in them.
structure Store.Shows (store : Store) (history : History) (d : Int) (folders files : List Nat) : Prop where
  folderList : store.lists (.folderFolders (unsigned d)) = folders.map decimal
  fileList : store.lists (.folderFiles (unsigned d)) = files.map decimal
  folderNumber : ∀ id ∈ folders, strtol (decimal id) = id
  fileNumber : ∀ id ∈ files, strtol (decimal id) = id
  folderNamed : ∀ id ∈ folders, store.folderName id = some (history.name id)
  fileNamed : ∀ id ∈ files, store.fileName id = some (history.name id)
  folderName : ∀ id ∈ folders, (vfsGetFolderName id).run execute store = (.ok (history.name id), store)
  fileName : ∀ id ∈ files, (vfsGetFileName id).run execute store = (.ok (history.name id), store)
  folder : ∀ id ∈ folders, (redisGetFolder id).run execute store = (.ok (history.folderRecord id), store)
  file : ∀ id ∈ files, (redisGetFile id).run execute store = (.ok (history.fileRecord id), store)
  folderInfo : ∀ id ∈ folders, (getDirItemInfo id).run execute store = (.ok (history.folderInfo id), store)
  fileInfo : ∀ id ∈ files, (getDirItemInfo id).run execute store = (.ok (history.fileInfo id), store)
  fileSize : ∀ id ∈ files, (vfsGetFileSizeFromId id).run execute store = (.ok 1, store)

theorem Tree.shows (tree : Tree) (d : Int) : tree.store.Shows tree.history d
    (tree.history.childFolders (unsigned d)) (tree.history.childFiles (unsigned d)) where
  folderList := History.store_folderFolders tree.history (unsigned d)
  fileList := History.store_folderFiles tree.history (unsigned d)
  folderNumber _ member := tree.strtol_number (Journal.children_le member).2
  fileNumber _ member := tree.strtol_number (Journal.children_le member).2
  folderNamed id member := by
    obtain ⟨entry, found, kind, _⟩ := Journal.mem_children.mp member
    exact tree.folderName_store (.inr ⟨entry, found, kind⟩)
  fileNamed _ member := tree.fileName_store member
  folderName _ member := tree.folder_name_run member
  fileName _ member := tree.file_name_run member
  folder _ member := tree.redisGetFolder_run member
  file _ member := tree.redisGetFile_run member
  folderInfo _ member := tree.getDirItemInfo_folder_run member
  fileInfo _ member := tree.getDirItemInfo_file_run member
  fileSize _ member := tree.fileSize_child_run member

namespace Store.Shows

variable {store : Store} {history : History} {d : Int} {folders files : List Nat}
  (shows : store.Shows history d folders files)

include shows

theorem lrange_folders_run : (redisCommand (.lrange (.folderFolders (unsigned d)))).run execute store =
    (.ok (.array (folders.map decimal)), store) := by
  rw [run_redisCommand, ← shows.folderList]
  rfl

theorem lrange_files_run : (redisCommand (.lrange (.folderFiles (unsigned d)))).run execute store =
    (.ok (.array (files.map decimal)), store) := by
  rw [run_redisCommand, ← shows.fileList]
  rfl

theorem folderIds : (folders.map decimal).map strtol = folders.map Nat.cast := by
  rw [List.map_map]
  exact List.map_congr_left shows.folderNumber

theorem fileIds : (files.map decimal).map strtol = files.map Nat.cast := by
  rw [List.map_map]
  exact List.map_congr_left shows.fileNumber

theorem redisGetFolderIds_run : (redisGetFolderIds d).run execute store = (.ok (folders.map Nat.cast), store) := by
  rw [redisGetFolderIds, Program.run_bind_ok execute shows.lrange_folders_run, ← shows.folderIds]
  rfl

theorem redisGetFileIds_run : (redisGetFileIds d).run execute store = (.ok (files.map Nat.cast), store) := by
  rw [redisGetFileIds, Program.run_bind_ok execute shows.lrange_files_run, ← shows.fileIds]
  rfl

omit shows in
theorem mapM_ids_run {A : Type} {f : Int → Prog A} {g : Nat → A} {ids : List Nat}
    (each : ∀ id ∈ ids, (f id).run execute store = (.ok (g id), store)) :
    ((ids.map Nat.cast).mapM f).run execute store = (.ok (ids.map g), store) := by
  rw [List.mapM_map]
  exact Program.run_mapM execute each

theorem redisGetFolders_run :
    (redisGetFolders d).run execute store = (.ok (folders.map history.folderRecord), store) := by
  rw [redisGetFolders, Program.run_bind_ok execute shows.redisGetFolderIds_run]
  exact mapM_ids_run shows.folder

theorem redisGetFiles_run :
    (redisGetFiles d).run execute store = (.ok (files.map history.fileRecord), store) := by
  rw [redisGetFiles, Program.run_bind_ok execute shows.redisGetFileIds_run]
  exact mapM_ids_run shows.file

theorem mapM_listed_run {A : Type} {f : Int → Prog A} {ofFolder ofFile : Nat → A}
    (each : ∀ id ∈ folders, (f id).run execute store = (.ok (ofFolder id), store))
    (each' : ∀ id ∈ files, (f id).run execute store = (.ok (ofFile id), store)) :
    (listDirFileAndFolderIds d >>= fun ids => ids.mapM f).run execute store =
      (.ok (folders.map ofFolder ++ files.map ofFile), store) := by
  have listed : (listDirFileAndFolderIds d).run execute store =
      (.ok (folders.map Nat.cast ++ files.map Nat.cast), store) := by
    rw [listDirFileAndFolderIds, Program.run_bind_ok execute shows.redisGetFolderIds_run,
      Program.run_bind_ok execute shows.redisGetFileIds_run]
    rfl
  rw [Program.run_bind_ok execute listed, List.mapM_append, Program.run_bind_ok execute (mapM_ids_run each),
    Program.run_bind_ok execute (mapM_ids_run each')]
  rfl

theorem lsInfo_run : (lsInfo d).run execute store =
    (.ok (folders.map history.folderInfo ++ files.map history.fileInfo), store) :=
  shows.mapM_listed_run shows.folderInfo shows.fileInfo

theorem ls_run : (ls d).run execute store = (.ok (folders.map history.name ++ files.map history.name), store) :=
  shows.mapM_listed_run (fun id member => Program.run_bind_ok execute (shows.folderInfo id member) _)
    fun id member => Program.run_bind_ok execute (shows.fileInfo id member) _

section Path

variable {context : FsContext} {path : Text}
  (resolved : (getFolderIdFromPath context path).run execute store = (.ok d, store))

include resolved

theorem lsPath_run : (lsPath context path).run execute store =
    (.ok (folders.map history.name ++ files.map history.name), store) := by
  rw [lsPath, Program.run_bind_ok execute resolved]
  exact shows.ls_run

theorem getFolders_run :
    (getFolders context path).run execute store = (.ok (folders.map history.folderRecord), store) :=
  (Program.run_bind_ok execute resolved _).trans shows.redisGetFolders_run

theorem getFiles_run :
    (getFiles context path).run execute store = (.ok (files.map history.fileRecord), store) :=
  (Program.run_bind_ok execute resolved _).trans shows.redisGetFiles_run

theorem lsPrettyPrint_run : (lsPrettyPrint context path).run execute store =
    (.ok ((folders.map history.name ++ files.map history.name).flatMap (· ++ ['\n'])), store) := by
  rw [lsPrettyPrint, Program.run_bind_ok execute (shows.getFiles_run resolved),
    Program.run_bind_ok execute (shows.getFolders_run resolved), Program.run_pure, List.flatMap_append,
    List.flatMap_map, List.flatMap_map, List.flatMap_map, List.flatMap_map]
  rfl

end Path

end Store.Shows

end RedisVfs
