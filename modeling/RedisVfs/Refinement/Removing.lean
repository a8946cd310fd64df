import RedisVfs.Refinement.Pruning

set_option autoImplicit false

namespace RedisVfs

open CString Directory

def Kind.list (kind : Kind) (d : Int) : Key :=
  match kind with
  | .folder => .folderFolders d
  | .file => .folderFiles d

theorem listKey_list (kind : Kind) (d : Nat) : listKey kind d = Kind.list kind d := by
  cases kind <;> rfl

def Store.deleted (store : Store) (parserState : VfsPathParserState) : Int × Store :=
  if parserState.isExistingObject = false then (-1, store)
  else if parserState.isDir then
    (0, (execute store (.lrem (.folderFolders parserState.parentId) (printLd parserState.id))).2)
  else if parserState.isFilePath then
    (0, (execute store (.lrem (.folderFiles parserState.parentId) (printLd parserState.id))).2)
  else (0, store)

theorem delete_run {store : Store} {junk parserState : VfsPathParserState} {path : Text} {d code : Int}
    (parsed : (vfsParsePath junk path path.length d).run execute store =
      (.ok (code, parserState), store)) :
    (vfsDeleteObjectWithPath junk path d).run execute store =
      (.ok (store.deleted parserState).1, (store.deleted parserState).2) := by
  rw [vfsDeleteObjectWithPath, Program.run_bind_ok execute parsed]
  dsimp only
  unfold Store.deleted
  cases parserState.isExistingObject <;> cases parserState.isDir <;> cases parserState.isFilePath <;> rfl

namespace Pruned

variable {pruned : Pruned} {kind : Kind} {d id : Nat}

theorem list_nodup (kind : Kind) (d : Nat) : (pruned.store.lists (listKey kind d)).Nodup := by
  have ordered := (Journal.children_decreasing pruned.history kind d).filter (· ∉ pruned.gone)
  rw [store_list]
  exact List.Nodup.map decimal_injective (ordered.imp fun more => Nat.ne_of_gt more)

section Remove

variable (listed : id ∈ pruned.children kind d)

theorem lrem_listed :
    (execute pruned.store (.lrem (listKey kind d) (decimal id))).2 = (pruned.remove listed).store := by
  rcases pruned.lrem_store (listKey kind d) (decimal id) with same | ⟨kind', d', id', listed', key, entry, less⟩
  · have member : decimal id ∈ pruned.store.lists (listKey kind d) := by
      rw [store_list]
      exact List.mem_map_of_mem listed
    exact absurd same (Redis.losesOnly_lrem (list_nodup kind d) member).ne
  · obtain ⟨rfl, rfl⟩ := History.listKey_inj.mp key
    obtain rfl := decimal_injective entry
    exact less

theorem losesOnly_remove :
    pruned.store.LosesOnly (pruned.remove listed).store (listKey kind d) (decimal id) := by
  have member : decimal id ∈ pruned.store.lists (listKey kind d) := by
    rw [store_list]
    exact List.mem_map_of_mem listed
  have loses := Redis.losesOnly_lrem (list_nodup kind d) member
  rwa [← execute, lrem_listed listed] at loses

theorem lists_remove {key : Key} (other : key ≠ listKey kind d) :
    (pruned.remove listed).store.lists key = pruned.store.lists key := by
  rw [← lrem_listed listed]
  simp [execute, Redis.execute, Function.update_of_ne other]

theorem beside_remove : pruned.store.view.Beside (pruned.remove listed).store.view d where
  name := rfl
  parent := rfl
  folders x other := by
    have key : Key.folderFolders x ≠ listKey kind d := by
      cases kind <;> simp [listKey, other]
    exact congrArg (List.map strtol) (lists_remove listed key)
  files x other := by
    have key : Key.folderFiles x ≠ listKey kind d := by
      cases kind <;> simp [listKey, other]
    change ((_ : List Text).map strtol).map _ = ((_ : List Text).map strtol).map _
    rw [lists_remove listed key]
    rfl

theorem not_in_folders (x : Int) : (id : Int) ∉ (pruned.remove listed).store.folders x := by
  intro member
  obtain ⟨_, other, -, same, child⟩ := mem_folders.mp member
  obtain rfl : id = other := by exact_mod_cast same
  exact (mem_children.mp child).2 List.mem_cons_self

theorem not_in_files (x : Nat) : (id : Int) ∉ (pruned.remove listed).store.files x := by
  intro member
  rw [files_store] at member
  obtain ⟨other, child, same⟩ := List.mem_map.mp member
  obtain rfl : id = other := by exact_mod_cast same.symm
  exact (mem_children.mp child).2 List.mem_cons_self

theorem not_kept (nonroot : id ≠ 0) : ¬ (pruned.remove listed).Kept id := by
  intro kept
  cases kept with
  | root => exact nonroot rfl
  | child _ _ stays _ => exact stays List.mem_cons_self

end Remove

theorem Kept.parent (kept : pruned.Kept id) : pruned.Kept (pruned.history.parent id) := by
  cases kept with
  | root => simpa [History.parent] using Kept.root
  | child found _ _ above => rwa [History.parent, Journal.parent_of_entry found]

theorem closed_kept : pruned.store.view.Closed fun e => ∃ n : Nat, e = n ∧ pruned.Kept n where
  child := by
    rintro x e ⟨n, rfl, kept⟩ member
    obtain ⟨m, other, same, rfl, child⟩ := mem_folders.mp member
    obtain rfl : n = m := by exact_mod_cast same
    exact ⟨other, rfl, kept.of_child child⟩
  above := by
    rintro x e ⟨n, rfl, kept⟩ above
    have parent := (folderParent_store kept.linked).symm.trans above
    exact ⟨_, (Option.some.inj parent).symm, kept.parent⟩

end Pruned

namespace Tree

def whole (tree : Tree) : Pruned := ⟨tree, [], by simp⟩

variable {tree : Tree}

theorem whole_store : tree.whole.store = tree.store := by
  refine Redis.Store.ext rfl (funext fun key => ?_) rfl
  rw [Pruned.store_lists]
  simp [whole]

theorem mem_whole {kind : Kind} {d id : Nat} :
    id ∈ tree.whole.children kind d ↔ id ∈ Journal.children tree.history kind d := by
  simp [whole, Pruned.children]

theorem readable : tree.store.Readable fun d => ∃ id : Nat, d = id ∧ tree.history.Linked id :=
  whole_store ▸ @Pruned.readable_linked tree.whole

theorem kept_of_lt {kind : Kind} {d id x : Nat} (listed : id ∈ tree.whole.children kind d)
    (linked : tree.history.Linked x) (less : x < id) : (tree.whole.remove listed).Kept x := by
  induction linked with
  | root => exact .root
  | @child x entry found kind_ above ih =>
    have older : entry.parent < x := by
      have bound := above.le
      have bounded := tree.bounded
      rcases tree.grown.entry found with lost | ⟨-, placed, -⟩
      · exact absurd lost.1 (tree.linked_ne_nowhere above)
      · unfold LONG_MAX at bounded
        omega
    refine .child found kind_ (fun gone => ?_) (ih (by omega))
    have same : x = id := by simpa [Pruned.remove, whole] using gone
    omega

end Tree

end RedisVfs
