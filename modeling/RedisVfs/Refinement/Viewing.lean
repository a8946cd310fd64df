import RedisVfs.Refinement.Parsing
import RedisVfs.Source.Contents
import RedisVfs.Tree.Reference

set_option autoImplicit false

namespace RedisVfs

open CString Directory

-- The last of the files in a folder's list that are called by the word, or by the word and a '/'
-- where one follows in the path.
def Store.oldestFile (store : Store) (d : Int) (word : Text) (slash : Bool) : Option Int :=
  (store.files d).reverse.find? fun id => (store.fileName id).any (fileNamed word slash)

namespace Tree

variable (tree : Tree)

theorem folders_store (d : Nat) :
    tree.store.folders d = (tree.history.childFolders d).map Nat.cast := by
  rw [Store.folders, History.store_folderFolders, List.map_map]
  exact List.map_congr_left fun id member => tree.strtol_number (Journal.children_le member).2

theorem files_store (d : Nat) :
    tree.store.files d = (tree.history.childFiles d).map Nat.cast := by
  rw [Store.files, History.store_folderFiles, List.map_map]
  exact List.map_congr_left fun id member => tree.strtol_number (Journal.children_le member).2

theorem mem_files_store {d id : Nat} :
    (id : Int) ∈ tree.store.files d ↔ id ∈ tree.history.childFiles d := by
  rw [tree.files_store, List.mem_map_of_injective Nat.cast_injective]

theorem mem_folders_store {d id : Nat} :
    (id : Int) ∈ tree.store.folders d ↔ id ∈ tree.history.childFolders d := by
  rw [tree.folders_store, List.mem_map_of_injective Nat.cast_injective]

theorem fileName_store {d id : Nat} (member : id ∈ tree.history.childFiles d) :
    tree.store.fileName id = some (tree.history.name id) := by
  obtain ⟨entry, found, kind, _⟩ := Journal.mem_children.mp member
  rw [Store.fileName, tree.file_name_held found kind]
  simp

theorem folderName_store {id : Nat}
    (folder : id = 0 ∨ ∃ entry, Journal.entryAt tree.history id = some entry ∧ entry.kind = .folder) :
    tree.store.folderName id = some (tree.history.name id) := by
  rw [Store.folderName, tree.folder_held folder]
  simp

theorem folderParent_store {id : Nat} (linked : tree.history.Linked id) :
    tree.store.folderParent id = some (tree.history.parent id : Int) := by
  rw [Store.folderParent, tree.folder_held (tree.linked_folder linked)]
  simp [tree.strtol_number linked.parent.le]

theorem fileNames_store (d : Nat) :
    tree.store.view.files d = (tree.history.childFiles d).map fun id => some (tree.history.name id) := by
  change (tree.store.files d).map tree.store.fileName = _
  rw [tree.files_store, List.map_map]
  exact List.map_congr_left fun id member => tree.fileName_store member

theorem view_embeds :
    View.Embeds Nat.cast tree.history.Linked tree.history.view tree.store.view where
  folders d _ := tree.folders_store d
  files d _ := tree.fileNames_store d
  name d linked := tree.folderName_store (tree.linked_folder linked)
  parent d linked := tree.folderParent_store linked
  child _ _ linked member := linked.of_child member
  above d e linked parent := by cases parent; exact linked.parent

theorem leads_store {d : Nat} (linked : tree.history.Linked d) (words : List Text) :
    tree.store.view.leads d words = (tree.history.walk d words).map Nat.cast := by
  rw [tree.view_embeds.leads_map linked, History.view_leads]

theorem within_store {d : Nat} (linked : tree.history.Linked d) {words : List Text} :
    tree.store.view.Within (· < 2 ^ 31) d words ↔ tree.history.view.Within (· < 2 ^ 31) d words :=
  tree.view_embeds.within_iff (fun e _ => by omega) linked

theorem parsesWithin_store {base : Nat} (linked : tree.history.Linked base) {path : Text} :
    ParsesWithin tree.store.view (· < 2 ^ 31) base path ↔
      ParsesWithin tree.history.view (· < 2 ^ 31) base path :=
  parsesWithin_iff tree.view_embeds (fun e _ => by omega) linked path

theorem pathWithin_store {base : Nat} (linked : tree.history.Linked base) {path : Text} :
    PathWithin tree.store.view (· < 2 ^ 31) base path ↔
      PathWithin tree.history.view (· < 2 ^ 31) base path :=
  pathWithin_iff tree.view_embeds (fun e _ => by omega) linked path

theorem within_root {words : List Text} :
    tree.store.view.Within (· < 2 ^ 31) 0 words ↔ tree.history.view.Within (· < 2 ^ 31) 0 words :=
  tree.within_store .root

theorem pathWithin_root {path : Text} :
    PathWithin tree.store.view (· < 2 ^ 31) 0 path ↔ PathWithin tree.history.view (· < 2 ^ 31) 0 path :=
  tree.pathWithin_store .root

theorem leads_of_straight {start : Nat} (linked : tree.history.Linked start) {before after : List Text}
    (straight : tree.store.view.Straight start (before ++ after)) :
    (∃ d, tree.store.view.leads start before = some d ∧ tree.store.view.Walk start before d) ∨
      tree.store.view.leads start before = none ∧ ∀ e, ¬ tree.store.view.Walk start before e := by
  rw [tree.leads_store linked]
  rcases History.walk_of_straight ((tree.view_embeds.straight_iff linked).mp straight) before after rfl with
    ⟨d, walk, first⟩ | ⟨walk, none⟩
  · exact .inl ⟨d, by rw [walk]; rfl, (tree.view_embeds.walk_iff linked).mpr ⟨d, rfl, View.walk_of_first first⟩⟩
  · refine .inr ⟨by rw [walk]; rfl, fun e reach => ?_⟩
    obtain ⟨m, -, reach⟩ := (tree.view_embeds.walk_iff linked).mp reach
    exact none m reach

theorem forest : tree.store.view.Forest := by
  have listed {d e : Int} (member : e ∈ tree.store.folders d) :
      ∃ m id : Nat, d = m ∧ e = id ∧ id ∈ tree.history.childFolders m := by
    obtain ⟨element, stored, rfl⟩ := List.mem_map.mp member
    obtain ⟨kind, m, key, id, child, rfl⟩ := History.store_listed stored
    cases kind with
    | file => simp [listKey] at key
    | folder =>
      obtain rfl : d = m := by simpa [listKey] using key
      exact ⟨m, id, rfl, tree.strtol_number (Journal.children_le child).2, child⟩
  intro d d' e member member'
  obtain ⟨m, id, rfl, rfl, child⟩ := listed member
  obtain ⟨m', id', rfl, same, child'⟩ := listed member'
  cases Int.ofNat.inj same
  obtain ⟨entry, found, _, rfl⟩ := Journal.mem_children.mp child
  obtain ⟨entry', found', _, rfl⟩ := Journal.mem_children.mp child'
  rw [found] at found'
  cases found'
  rfl

theorem leads_root_iff {words : List Text} {d : Int} :
    tree.store.view.leads 0 words = some d ↔
      ∃ id : Nat, tree.history.walk 0 words = some id ∧ (id : Int) = d := by
  have leads := tree.leads_store .root words
  change tree.store.view.leads 0 words = _ at leads
  rw [leads, Option.map_eq_some_iff]

theorem named_store {d : Nat} (linked : tree.history.Linked d) (word : Text) :
    tree.store.view.named d word = (tree.history.folderNamed d word).map Nat.cast := by
  rw [tree.view_embeds.named_map linked, History.view_named]

theorem firstBeginning_store {d : Nat} (linked : tree.history.Linked d) (word : Text) :
    tree.store.view.firstBeginning d word = (tree.history.view.firstBeginning d word).map Nat.cast :=
  tree.view_embeds.find_map d linked fun name => name.any word.isPrefixOf

theorem mem_files {d : Nat} {name : Text} :
    some name ∈ tree.store.view.files d ↔ ∃ id ∈ tree.history.childFiles d, tree.history.name id = name := by
  simp [tree.fileNames_store]

theorem oldestFile_store (d : Nat) (word : Text) (slash : Bool) :
    tree.store.oldestFile d word slash = (tree.history.findFile d word slash).map Nat.cast := by
  rw [Store.oldestFile, tree.files_store, ← List.map_reverse, List.find?_map]
  congr 1
  refine List.find?_congr fun id member => ?_
  simp [tree.fileName_store (List.mem_reverse.mp member)]

theorem findFile_open {d : Nat} {word : Text} :
    tree.history.findFile d word false = none ↔ some word ∉ tree.store.view.files d := by
  rw [History.findFile_eq_none, tree.mem_files]
  simp [fileNamed]

theorem findFile_closed {d : Nat} {word : Text} :
    tree.history.findFile d word true = none ↔
      some word ∉ tree.store.view.files d ∧ some (word ++ ['/']) ∉ tree.store.view.files d := by
  rw [History.findFile_eq_none, tree.mem_files, tree.mem_files]
  simp [fileNamed, forall_and]

theorem reached_iff {d : Int} :
    tree.store.FolderReached d ↔ ∃ id, d = (id : Nat) ∧ tree.history.Linked id := by
  have both := tree.view_embeds.reached_iff (y := d) (.root)
  exact both.trans (exists_congr fun id => and_congr_right fun _ => History.reached_iff)

end Tree

end RedisVfs
