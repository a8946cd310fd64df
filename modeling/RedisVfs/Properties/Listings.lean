import RedisVfs.Properties.Capacities

set_option autoImplicit false

namespace RedisVfs

open CString Buffered

-- All listings of a folder number show these folders and then these files, each with its number and its
-- name, which are those of the lists and of the info hashes; no number occurs twice.
structure Store.Lists (store : Store) (context : FsContext) (d : Int)
    (folders files : List (Int × Text)) : Prop where
  folderIds : store.folders (unsigned d) = folders.map Prod.fst
  folderNames : ∀ folder ∈ folders, store.folderName folder.1 = some folder.2
  fileIds : store.files (unsigned d) = files.map Prod.fst
  fileNames : ∀ file ∈ files, store.fileName file.1 = some file.2
  once : ((folders ++ files).map Prod.fst).Nodup
  ls : (ls d).run execute store = (.ok ((folders ++ files).map Prod.snd), store)
  lsInfo : ∃ infos, (lsInfo d).run execute store = (.ok infos, store) ∧
    infos.map (fun info => (info.type, info.id, info.name)) =
      folders.map (fun folder => (some .DIR_ITEM_FOLDER, folder)) ++
        files.map fun file => (some .DIR_ITEM_FILE, file)
  getFolders : ∃ records, (redisGetFolders d).run execute store = (.ok records, store) ∧
    records.map (fun record => (record.id, record.name)) = folders
  getFiles : ∃ records, (redisGetFiles d).run execute store = (.ok records, store) ∧
    records.map (fun record => (record.id, record.name)) = files
  lsPrettyPrint : ∀ path, (getFolderIdFromPath context path).run execute store = (.ok d, store) →
    (lsPrettyPrint context path).run execute store =
      (.ok ((folders ++ files).flatMap fun child => child.2 ++ ['\n']), store)
  vfsLs : (Buffered.vfsLs d).run execute store =
    (.ok ((folders ++ files).map fun child => "ls: ".toList ++ child.2 ++ ['\n']), store)
  vfsListUnixStyle : (Buffered.vfsListUnixStyle d).run execute store =
    (.ok ((folders.flatMap fun folder => unixLine "drwxrwxr-x".toList 1 folder.2) ++
      files.flatMap fun file => unixLine "-rwxrwxr-x".toList 1 file.2), store)

namespace History

variable (history : History)

def numbered (ids : List Nat) : List (Int × Text) := ids.map fun (id : Nat) => ((id : Int), history.name id)

theorem numbered_ids (ids : List Nat) : (history.numbered ids).map Prod.fst = ids.map Nat.cast := by
  rw [numbered, List.map_map]
  rfl

theorem numbered_names (ids : List Nat) : (history.numbered ids).map Prod.snd = ids.map history.name := by
  rw [numbered, List.map_map]
  rfl

theorem children_once (d : Nat) : (history.childFolders d ++ history.childFiles d).Nodup := by
  have ordered (kind : Kind) : (Journal.children history kind d).Nodup := by
    apply List.Pairwise.imp _ (Journal.children_decreasing history kind d)
    intro id id' greater
    omega
  apply List.Nodup.append (ordered .folder) (ordered .file)
  intro id folder file
  have same := Journal.children_kind folder file
  simp at same

theorem siblings_files (count : Nat) : (files count).siblings 0 = List.replicate count "f".toList := by
  induction count with
  | zero => rfl
  | succ count ih =>
    have more : files (count + 1) = ⟨.file, 0, "f".toList⟩ :: files count := List.replicate_succ
    rw [siblings, childFolders_files, List.nil_append] at ih
    rw [more, siblings_cons, if_pos rfl, childFolders_files, List.map_nil, List.nil_append, ih]
    rfl

end History

namespace Store.Shows

variable {store : Store} {history : History} {d : Int} {folders files : List Nat}
  (shows : store.Shows history d folders files)

include shows

theorem lists (context : FsContext) (once : (folders ++ files).Nodup) (fits : store.ListingFits d) :
    store.Lists context d (history.numbered folders) (history.numbered files) where
  folderIds := by rw [Store.folders, shows.folderList, shows.folderIds, History.numbered_ids]
  folderNames := by
    intro folder member
    obtain ⟨id, child, rfl⟩ := List.mem_map.mp member
    exact shows.folderNamed id child
  fileIds := by rw [Store.files, shows.fileList, shows.fileIds, History.numbered_ids]
  fileNames := by
    intro file member
    obtain ⟨id, child, rfl⟩ := List.mem_map.mp member
    exact shows.fileNamed id child
  once := by
    rw [List.map_append, History.numbered_ids, History.numbered_ids, ← List.map_append]
    exact once.map Nat.cast_injective
  ls := by
    rw [shows.ls_run, List.map_append, History.numbered_names, History.numbered_names]
  lsInfo := by
    refine ⟨_, shows.lsInfo_run, ?_⟩
    simp only [List.map_append, List.map_map, History.numbered]
    rfl
  getFolders := by
    refine ⟨_, shows.redisGetFolders_run, ?_⟩
    rw [List.map_map]
    rfl
  getFiles := by
    refine ⟨_, shows.redisGetFiles_run, ?_⟩
    rw [List.map_map]
    rfl
  lsPrettyPrint := by
    intro path resolved
    rw [shows.lsPrettyPrint_run resolved, ← History.numbered_names, ← History.numbered_names, ← List.map_append,
      List.flatMap_map]
  vfsLs := by
    have run := shows.vfsLs_run
    rw [if_pos (shows.short_iff.mp fits.1)] at run
    rw [run, List.map_append, History.lsLines, History.lsLines, History.numbered, History.numbered, List.map_map,
      List.map_map]
    rfl
  vfsListUnixStyle := by
    have inside := shows.vfsListUnixStyle_inside.mpr fits
    have run := shows.vfsListUnixStyle_run
    rw [if_pos (not_not.mp ((overflows_iff run).not.mp inside))] at run
    rw [run, History.unixLines, History.unixLines, History.numbered, History.numbered, List.flatMap_map,
      List.flatMap_map]

theorem lists_iff (context : FsContext) (once : (folders ++ files).Nodup) :
    (∃ folders files, store.Lists context d folders files) ↔ store.ListingFits d := by
  constructor
  · rintro ⟨folders, files, lists⟩
    apply shows.vfsListUnixStyle_inside.mp
    rw [Overflows, lists.vfsListUnixStyle]
    simp
  · exact fun fits => ⟨_, _, shows.lists context once fits⟩

end Store.Shows

-- In runs whose creations have room all listings agree in every state. With names shorter than the buffer
-- for names they agree in a state exactly where the listing is shorter than its own buffer.
theorem listings_agree (state : State) :
    (ReachedBy CreatesFitting state →
      ∀ d, ∃ folders files, state.store.Lists state.context d folders files) ∧
    (Reachable state → ∀ d : Int,
      (∀ name, some name ∈ state.store.childNames (unsigned d) → name.length < MAX_FILENAME_SIZE) →
        ((∃ folders files, state.store.Lists state.context d folders files) ↔
          state.store.listingSize (unsigned d) < LINE_SIZE)) := by
  constructor
  · intro reached d
    obtain ⟨tree, cwd, holds, fits⟩ := reached.childrenFit
    rw [holds.store]
    exact ((tree.shows d).lists_iff _ (tree.history.children_once _)).mpr (fits d)
  · intro reached d short
    obtain ⟨tree, cwd, holds⟩ := reached.represented
    rw [holds.store] at short ⊢
    rw [(tree.shows d).lists_iff _ (tree.history.children_once _)]
    exact and_iff_right short

theorem listings_agree_folder : ∃ state : State, ReachedBy CreatesFitting state ∧ state.store.folders 0 = [1] ∧
    ∀ d, ∃ folders files, state.store.Lists state.context d folders files := by
  have built : ReachedBy CreatesFitting ⟨Tree.fresh.store, { cwd := ['/'] }⟩ := .built Redis.Store.empty
  have room : Tree.fresh.store.HasRoom 0 "a".toList := by
    unfold Store.HasRoom
    rw [Tree.listingSize_store]
    decide
  have placed : Tree.fresh.history.placeOfPath "a".toList = some (unsigned 0, "a".toList) := by decide
  have holds : Represents ⟨Tree.fresh.store, { cwd := ['/'] }⟩ Tree.fresh [] := ⟨rfl, rfl⟩
  obtain ⟨tree, history, reached⟩ := ReachedBy.creates Tree.small_fresh built .folder placed
    (holds.createsFitting Tree.small_fresh .folder placed room)
  refine ⟨_, reached, ?_, (listings_agree _).1 reached⟩
  rw [Tree.store, history]
  decide

-- Four hundred files called "f": vfs_listUnixStyle writes beyond its 20000 characters.
theorem listings_agree_crowded : ∃ state : State, Reachable state ∧
    (∀ name, some name ∈ state.store.childNames 0 → name = "f".toList) ∧
      Overflows state.store (Buffered.vfsListUnixStyle 0) ∧
        ¬ ∃ folders files, state.store.Lists state.context 0 folders files := by
  obtain ⟨tree, history, reached⟩ := @reachedBy_files (fun _ _ => True) (fun _ => trivial) 400 (by decide)
  have names : tree.store.childNames 0 = (List.replicate 400 "f".toList).map some :=
    (tree.childNames_store 0).trans (by rw [history, History.siblings_files])
  have size : tree.store.listingSize 0 = 21600 := by
    refine (tree.listingSize_store 0).trans ?_
    rw [history, History.siblings_files, List.map_replicate, List.sum_replicate_nat]
    rfl
  have crowded : ¬ tree.store.ListingFits 0 := fun fits => by
    have room : tree.store.listingSize 0 < LINE_SIZE := fits.2
    rw [size] at room
    exact absurd room (by decide)
  have shows := tree.shows 0
  refine ⟨_, reached, fun name member => ?_, not_not.mp (mt shows.vfsListUnixStyle_inside.mp crowded),
    mt (shows.lists_iff _ (tree.history.children_once _)).mp crowded⟩
  rw [names, List.mem_map_of_injective (Option.some_injective _)] at member
  exact List.eq_of_mem_replicate member

end RedisVfs
