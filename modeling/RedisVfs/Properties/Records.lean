import RedisVfs.Refinement.Building
import RedisVfs.Refinement.Listing
import RedisVfs.Refinement.Stating
import RedisVfs.Refinement.Viewing

set_option autoImplicit false

namespace RedisVfs

open CString

-- The records of a folder's listings name it as parent and say that they exist, as stat does of
-- every object that it finds.
def Store.RecordsFaithful (store : Store) (context : FsContext) (d : Int) : Prop :=
  ∃ infos folders files, (lsInfo d).run execute store = (.ok infos, store) ∧
    (redisGetFolders d).run execute store = (.ok folders, store) ∧
    (redisGetFiles d).run execute store = (.ok files, store) ∧
    (∀ info ∈ infos, info.parentId = some d ∧ info.exists_ = true) ∧
    (∀ folder ∈ folders, folder.parentId = d) ∧ (∀ file ∈ files, file.parentId = d) ∧
    ∀ info ∈ infos, ∀ path found store', (stat context path).run execute store = (.ok found, store') →
      found.exists_ = true → found.id = info.id →
        info.exists_ = found.exists_ ∧ info.type = found.type ∧ info.name = found.name

structure Store.RecordsKept (store : Store) (context : FsContext) (d : Int) (infos : List DirItemInfo)
    (folders : List Folder) (files : List File) : Prop where
  lsInfo : (lsInfo d).run execute store = (.ok infos, store)
  getFolders : (redisGetFolders d).run execute store = (.ok folders, store)
  getFiles : (redisGetFiles d).run execute store = (.ok files, store)
  missing : ∀ info ∈ infos, info.exists_ = false
  infoParent : ∀ info ∈ infos, info.type = some .DIR_ITEM_FOLDER ∧ info.parentId = some d ∨
    info.type = some .DIR_ITEM_FILE ∧ info.parentId = some (-1)
  folderParent : ∀ folder ∈ folders, folder.parentId = d
  fileParent : ∀ file ∈ files, file.parentId = -1
  found : ∀ info ∈ infos, ∀ body found store',
    (stat context ('/' :: body)).run execute store = (.ok found, store') →
      found.exists_ = true → found.id = info.id → info.type = found.type ∧ info.name = found.name

theorem stat_ok {context : FsContext} {path : Text} {found : DirItemInfo} {store store' : Store}
    (run : (stat context path).run execute store = (.ok found, store')) (there : found.exists_ = true) :
    ∃ kind value, found.type = some kind.itemType ∧
      (store.hashes (infoKey kind (unsigned found.id))).lookup .name = some value ∧ found.name = unquoted value := by
  have named {kind : Kind} {id : Int} {getName : Int → Prog Text} {name : Text}
      (shape : getName id = do
        let reply ← redisCommand (.hget (infoKey kind (unsigned id)) .name)
        return unquoted (← dereference reply))
      (got : (getName id).run execute store = (.ok name, store)) :
      ∃ value, (store.hashes (infoKey kind (unsigned id))).lookup .name = some value ∧ name = unquoted value := by
    rw [shape, Program.run_bind_ok execute (run_redisCommand _ _)] at got
    cases held : (store.hashes (infoKey kind (unsigned id))).lookup .name with
    | none =>
      simp only [execute, Redis.execute, held, dereference, Redis.Reply.str] at got
      cases got
    | some value =>
      refine ⟨value, rfl, ?_⟩
      simpa [execute, Redis.execute, held, dereference, Redis.Reply.str, eq_comm] using congrArg Prod.fst got
  have read (fileId : Int) (run : (if fileId ≠ -1 then do
          let name ← redisGetFileName fileId
          return ({ id := fileId, exists_ := true, type := some .DIR_ITEM_FILE, parentId := none, name } :
            DirItemInfo)
        else do
          let folderId ← getFolderIdFromPath context path
          if folderId = -1 then
            return { id := -1, exists_ := false, type := none, parentId := none, name := [] }
          else
            let name ← redisGetFolderName folderId
            return { id := folderId, exists_ := true, type := some .DIR_ITEM_FOLDER, parentId := none, name }
        : Prog DirItemInfo).run execute store = (.ok found, store')) :
      ∃ kind value, found.type = some kind.itemType ∧
        (store.hashes (infoKey kind (unsigned found.id))).lookup .name = some value ∧
          found.name = unquoted value := by
    split at run
    · obtain ⟨name, got, run⟩ := (Reading.bind_ok_iff (only_fileName reads_gets fileId)).mp run
      cases run
      obtain ⟨value, held, rfl⟩ := @named .file _ redisGetFileName _ rfl got
      exact ⟨.file, value, rfl, held, rfl⟩
    · obtain ⟨folderId, _, run⟩ := (Reading.bind_ok_iff (reading_folderIdFromPath _ _)).mp run
      split at run
      · cases run
        simp at there
      · obtain ⟨name, got, run⟩ := (Reading.bind_ok_iff (only_folderName reads_gets folderId)).mp run
        cases run
        obtain ⟨value, held, rfl⟩ := @named .folder _ redisGetFolderName _ rfl got
        exact ⟨.folder, value, rfl, held, rfl⟩
  unfold stat at run
  dsimp only at run
  split at run
  · obtain ⟨fileId, _, run⟩ := (Reading.bind_ok_iff (reading_fileIdFromPath _ _)).mp run
    exact read fileId run
  · rw [Program.run_bind_ok execute (Program.run_pure execute (-1) store)] at run
    exact read (-1) run

namespace Tree

variable (tree : Tree)

theorem stat_of_child {context : FsContext} {kind : Kind} {d id : Nat} {path : Text} {found : DirItemInfo}
    {store' : Store} (member : id ∈ Journal.children tree.history kind d)
    (run : (stat context path).run execute tree.store = (.ok found, store'))
    (there : found.exists_ = true) (same : found.id = id) :
    found.type = some kind.itemType ∧ found.name = tree.history.name id := by
  obtain ⟨kind', value, type, held, name⟩ := stat_ok run there
  have bound := Journal.children_le member
  obtain ⟨entry, here, rfl, _⟩ := Journal.mem_children.mp member
  rw [same, tree.number bound.2] at held
  obtain rfl : entry.kind = kind' := by
    by_contra other
    rw [Tree.store, @History.store_info_none tree.history id kind' (by omega) fun entry' there => by
      cases here.symm.trans there
      exact other] at held
    simp at held
  have called : (tree.store.hashes (infoKey entry.kind id)).lookup .name = some (quoted entry.name) := by
    rw [Tree.store, History.store_info_some here, infoHash_name]
  refine ⟨type, ?_⟩
  rw [name, Option.some.inj (held.symm.trans called), unquoted_quoted, History.name, Journal.name_of_entry here]

theorem child_parent {kind : Kind} {d id : Nat} (linked : tree.history.Linked d)
    (member : id ∈ Journal.children tree.history kind d) :
    strtol (decimal (tree.history.parent id)) = d := by
  obtain ⟨entry, found, _, rfl⟩ := Journal.mem_children.mp member
  rw [History.parent, Journal.parent_of_entry found, tree.strtol_number linked.le]

theorem mem_infos {d : Nat} {info : DirItemInfo} (member : info ∈
      (tree.history.childFolders d).map tree.history.folderInfo ++
        (tree.history.childFiles d).map tree.history.fileInfo) :
    (∃ id ∈ tree.history.childFolders d, info = tree.history.folderInfo id) ∨
      ∃ id ∈ tree.history.childFiles d, info = tree.history.fileInfo id := by
  rcases List.mem_append.mp member with folder | file
  · obtain ⟨id, child, rfl⟩ := List.mem_map.mp folder
    exact .inl ⟨id, child, rfl⟩
  · obtain ⟨id, child, rfl⟩ := List.mem_map.mp file
    exact .inr ⟨id, child, rfl⟩

theorem recordsKept (cwd : Text) {d : Nat} (linked : tree.history.Linked d) :
    tree.store.RecordsKept { cwd := '/' :: cwd } d
      ((tree.history.childFolders d).map tree.history.folderInfo ++
        (tree.history.childFiles d).map tree.history.fileInfo)
      ((tree.history.childFolders d).map tree.history.folderRecord)
      ((tree.history.childFiles d).map tree.history.fileRecord) where
  lsInfo := by rw [(tree.shows d).lsInfo_run, tree.number linked.le]
  getFolders := by rw [(tree.shows d).redisGetFolders_run, tree.number linked.le]
  getFiles := by rw [(tree.shows d).redisGetFiles_run, tree.number linked.le]
  missing := by
    intro info member
    rcases tree.mem_infos member with ⟨id, _, rfl⟩ | ⟨id, _, rfl⟩ <;> rfl
  infoParent := by
    intro info member
    rcases tree.mem_infos member with ⟨id, child, rfl⟩ | ⟨id, child, rfl⟩
    · exact .inl ⟨rfl, congrArg some (tree.child_parent linked child)⟩
    · exact .inr ⟨rfl, rfl⟩
  folderParent := by
    intro folder member
    obtain ⟨id, child, rfl⟩ := List.mem_map.mp member
    exact tree.child_parent linked child
  fileParent := by
    intro file member
    obtain ⟨id, _, rfl⟩ := List.mem_map.mp member
    rfl
  found := by
    intro info member body found store' run there same
    rcases tree.mem_infos member with ⟨id, child, rfl⟩ | ⟨id, child, rfl⟩
    · obtain ⟨type, name⟩ := tree.stat_of_child child run there same
      exact ⟨type.symm, name.symm⟩
    · obtain ⟨type, name⟩ := tree.stat_of_child child run there same
      exact ⟨type.symm, name.symm⟩

theorem recordsFaithful_iff (cwd : Text) {d : Nat} (linked : tree.history.Linked d) :
    tree.store.RecordsFaithful { cwd := '/' :: cwd } d ↔
      tree.store.folders d = [] ∧ tree.store.files d = [] := by
  have kept := tree.recordsKept cwd linked
  rw [tree.folders_store, tree.files_store, List.map_eq_nil_iff, List.map_eq_nil_iff]
  constructor
  · rintro ⟨infos, _, _, run, _, _, faithful, _⟩
    have both := run.symm.trans kept.lsInfo
    rw [Prod.mk.injEq, Except.ok.injEq] at both
    have none : infos = [] := by
      apply List.eq_nil_iff_forall_not_mem.mpr
      intro info member
      have missing := kept.missing info (both.1 ▸ member)
      rw [(faithful info member).2] at missing
      simp at missing
    rw [none] at both
    simpa using both.1.symm
  · rintro ⟨noFolders, noFiles⟩
    rw [noFolders, noFiles] at kept
    exact ⟨_, _, _, kept.lsInfo, kept.getFolders, kept.getFiles, by simp, by simp, by simp, by simp⟩

end Tree

-- Every record of a listing says that its object does not exist, and every file's record has the
-- parent -1: the listings are faithful in a folder without children only.
theorem listing_records {state : State} (reached : Reachable state) {d : Int}
    (folder : state.store.FolderReached d) :
    (state.store.RecordsFaithful state.context d ↔
      state.store.folders d = [] ∧ state.store.files d = []) ∧
    ∃ infos folders files, state.store.RecordsKept state.context d infos folders files := by
  obtain ⟨tree, cwd, holds⟩ := reached.represented
  obtain rfl := holds.state_eq
  obtain ⟨id, rfl, linked⟩ := tree.reached_iff.mp folder
  exact ⟨tree.recordsFaithful_iff cwd linked, _, _, _, tree.recordsKept cwd linked⟩

theorem listing_records_nested : ∃ state : State, state.store.folders 0 = [1] ∧
    state.store.RecordsFaithful state.context 1 := by
  obtain ⟨tree, history, reached⟩ := reachable_folder
  have walk : tree.history.walk 0 ["a".toList] = some 1 := by rw [history]; decide
  have folder : tree.store.FolderReached ((1 : Nat) : Int) :=
    tree.reached_iff.mpr ⟨1, rfl, History.Linked.walk .root walk⟩
  refine ⟨⟨tree.store, { cwd := ['/'] }⟩, ?_, (listing_records reached folder).1.mpr ⟨?_, ?_⟩⟩
  · rw [Tree.store, history]; decide
  · rw [Tree.store, history]; decide
  · rw [Tree.store, history]; decide

-- One file in the root: its record has the parent -1 and does not exist.
theorem listing_records_file : ∃ state : State,
    ReachedBy (fun _ call => call = .createFile "/f".toList) state ∧ state.store.FolderReached 0 ∧
      ¬ state.store.RecordsFaithful state.context 0 := by
  obtain ⟨tree, made, reached⟩ := @reachedBy_creating (fun _ call => call = .createFile "/f".toList)
    [(.file, "f".toList)] (by simp [Kind.call]) (by decide)
  have history : tree.history = [⟨.file, 0, "f".toList⟩] := by rw [made]; decide
  refine ⟨_, reached, .root, fun faithful => ?_⟩
  have noFiles := ((tree.recordsFaithful_iff [] .root).mp faithful).2
  rw [tree.files_store, history] at noFiles
  revert noFiles
  decide

end RedisVfs
