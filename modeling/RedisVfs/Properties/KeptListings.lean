import RedisVfs.Properties.Lifetimes
import RedisVfs.Properties.Listings

set_option autoImplicit false

namespace RedisVfs

open CString

def ReadsInfo : Redis.Command Key Field → Prop
  | .hget _ _ => True
  | .existsKey key => ∃ number, key = .folderInfo number ∨ key = .fileInfo number
  | _ => False

section Items

theorem only_folderParentId (id : Int) : (redisGetFolderParentId id).Only ReadsInfo :=
  (Program.Only.command trivial).bind fun reply => by cases reply.str <;> exact .pure _

theorem only_fileParentId (id : Int) : (redisGetFileParentId id).Only ReadsInfo :=
  (Program.Only.command trivial).bind fun reply => by cases reply.str <;> exact .pure _

theorem only_fileSize (id : Int) : (vfsGetFileSizeFromId id).Only ReadsInfo :=
  (Program.Only.command trivial).bind fun reply => by cases reply.str <;> exact .pure _

theorem only_isDirectory (id : Int) : (redisIsDirectory id).Only ReadsInfo :=
  (Program.Only.command ⟨_, .inl rfl⟩).bind fun reply => by cases reply <;> exact .pure _

theorem only_folder (id : Int) : (redisGetFolder id).Only ReadsInfo :=
  (only_folderName (fun _ _ => trivial) id).bind fun _ => (only_folderParentId id).bind fun _ => .pure _

theorem only_file (id : Int) : (redisGetFile id).Only ReadsInfo :=
  (only_fileName (fun _ _ => trivial) id).bind fun _ => (only_fileParentId id).bind fun _ => .pure _

theorem only_dirItemInfo (id : Int) : (getDirItemInfo id).Only ReadsInfo := by
  refine (only_isDirectory id).bind fun code => ?_
  split
  · exact (only_folderParentId id).bind fun _ => (only_folderName (fun _ _ => trivial) id).bind fun _ => .pure _
  · exact (only_fileParentId id).bind fun _ => (only_fileName (fun _ _ => trivial) id).bind fun _ => .pure _

end Items

namespace Pruned

variable {pruned : Pruned}

theorem items_alike {A : Type} {program : Prog A} (only : program.Only ReadsInfo) {value : A}
    (run : program.run execute pruned.tree.store = (.ok value, pruned.tree.store)) :
    program.run execute pruned.store = (.ok value, pruned.store) := by
  have keeps (command : Redis.Command Key Field) (store : Store) (reads : ReadsInfo command) :
      (execute store command).2 = store := by
    cases command with
    | hget => rfl
    | existsKey => rfl
    | _ => exact reads.elim
  have answers := only.run_alike (fun command reads => ⟨keeps command _ reads, keeps command _ reads⟩)
    fun command reads => show (execute pruned.tree.store command).1 = (execute pruned.store command).1 by
      cases command with
      | hget key field => rfl
      | existsKey key =>
        have empty : pruned.tree.store.lists key = [] := by
          refine History.store_list_other fun kind d same => ?_
          obtain ⟨number, rfl | rfl⟩ := reads <;> cases kind <;> cases same
        simp [execute, Redis.execute, Redis.Store.has, store_lists, empty]
      | _ => exact reads.elim
  rw [run] at answers
  exact Prod.ext answers (only.run_server keeps _)

theorem shows (pruned : Pruned) (d : Int) : pruned.store.Shows pruned.history d
    (pruned.children .folder (unsigned d)) (pruned.children .file (unsigned d)) where
  folderList := pruned.store_list .folder (unsigned d)
  fileList := pruned.store_list .file (unsigned d)
  folderNumber _ listed := strtol_child listed
  fileNumber _ listed := strtol_child listed
  folderNamed _ listed := (pruned.tree.shows d).folderNamed _ (mem_children.mp listed).1
  fileNamed _ listed := fileName_store listed
  folderName _ listed := items_alike (only_folderName (fun _ _ => trivial) _)
    ((pruned.tree.shows d).folderName _ (mem_children.mp listed).1)
  fileName _ listed := items_alike (only_fileName (fun _ _ => trivial) _)
    ((pruned.tree.shows d).fileName _ (mem_children.mp listed).1)
  folder _ listed := items_alike (only_folder _) ((pruned.tree.shows d).folder _ (mem_children.mp listed).1)
  file _ listed := items_alike (only_file _) ((pruned.tree.shows d).file _ (mem_children.mp listed).1)
  folderInfo _ listed := items_alike (only_dirItemInfo _)
    ((pruned.tree.shows d).folderInfo _ (mem_children.mp listed).1)
  fileInfo _ listed := items_alike (only_dirItemInfo _)
    ((pruned.tree.shows d).fileInfo _ (mem_children.mp listed).1)
  fileSize _ listed := items_alike (only_fileSize _) ((pruned.tree.shows d).fileSize _ (mem_children.mp listed).1)

theorem children_once (pruned : Pruned) (d : Nat) :
    (pruned.children .folder d ++ pruned.children .file d).Nodup := by
  have within (kind : Kind) : (pruned.children kind d).Sublist (Journal.children pruned.history kind d) :=
    List.filter_sublist
  exact ((within .folder).append (within .file)).nodup (pruned.history.children_once d)

end Pruned

theorem Sessions.listings_kept {ι : Type} [DecidableEq ι] {sessions : Sessions ι} (lived : sessions.Lived)
    (context : FsContext) (d : Int) :
    (∃ folders files, sessions.store.Lists context d folders files) ↔ sessions.store.ListingFits d := by
  obtain ⟨pruned, holds⟩ := lived.represented
  rw [holds.store]
  exact (pruned.shows d).lists_iff context (pruned.children_once _)

theorem Sessions.listings_kept_withoutFolder :
    withoutFolder.store.folders 0 = [2] ∧ withoutFolder.store.files 0 = [3] ∧
      ∃ folders files, withoutFolder.store.Lists { cwd := ['/'] } 0 folders files := by
  refine ⟨by decide +kernel, by decide +kernel,
    (listings_kept (lived_withFolder.run run_withoutFolder) _ 0).mpr ⟨fun name member => ?_, by decide +kernel⟩⟩
  have names : withoutFolder.store.childNames (unsigned 0) = [some "b".toList, some "f".toList] := by decide +kernel
  rw [names] at member
  rcases List.mem_cons.mp member with same | same
  · cases same
    decide
  · cases List.mem_singleton.mp same
    decide

end RedisVfs
