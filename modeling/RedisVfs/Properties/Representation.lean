import Mathlib.Data.List.Count
import RedisVfs.Refinement.Building

set_option autoImplicit false

namespace RedisVfs

open CString

def Key.isChildList : Key → Bool
  | .folderFolders _ | .folderFiles _ => true
  | _ => false

-- The four families of keys and the counter `c` agree on what has been created.
structure RepresentationInvariant (store : Store) (c : Nat) : Prop where
  count : store.strings .currentIdCount = some (decimal c)
  positive : 1 ≤ c
  listed : ∀ key : Key, key.isChildList → ∀ element ∈ store.lists key,
    ∃ id, 1 ≤ id ∧ id < c ∧ element = decimal id
  once : ∀ id, 1 ≤ id → id < c → ∃ key : Key, key.isChildList ∧
    (store.lists key).count (decimal id) = 1 ∧
      ∀ other : Key, other.isChildList → decimal id ∈ store.lists other → other = key
  decreasing : ∀ key : Key, key.isChildList → ((store.lists key).map strtol).Pairwise (· > ·)
  folder : ∀ (d : Int) (id : Nat), decimal id ∈ store.lists (.folderFolders d) →
    (store.hashes (.folderInfo id)).lookup .parent = some (printLd d) ∧
      store.hashes (.fileInfo id) = []
  file : ∀ (d : Int) (id : Nat), decimal id ∈ store.lists (.folderFiles d) →
    store.hashes (.fileInfo id) ≠ [] ∧ store.hashes (.folderInfo id) = []
  root : (store.hashes (.folderInfo 0)).lookup .parent = some (decimal 0)

namespace History

theorem mem_child_list {history : History} {key : Key} {element : Text} (list : key.isChildList)
    (member : element ∈ history.store.lists key) :
    ∃ id entry, Journal.entryAt history id = some entry ∧ element = decimal id ∧
      key = listKey entry.kind entry.parent := by
  by_cases known : ∃ kind d, key = listKey kind d
  · obtain ⟨kind, d, rfl⟩ := known
    rw [store_list] at member
    obtain ⟨id, child, rfl⟩ := List.mem_map.mp member
    obtain ⟨entry, found, rfl, rfl⟩ := Journal.mem_children.mp child
    exact ⟨id, entry, found, rfl, rfl⟩
  · rw [store_list_other fun kind d same => known ⟨kind, d, same⟩] at member
    simp at member

theorem mem_child_list_decimal {history : History} {key : Key} {id : Nat} (list : key.isChildList)
    (member : decimal id ∈ history.store.lists key) :
    ∃ entry, Journal.entryAt history id = some entry ∧ key = listKey entry.kind entry.parent := by
  obtain ⟨_, entry, found, same, here⟩ := mem_child_list list member
  cases decimal_injective same
  exact ⟨entry, found, here⟩

theorem listKey_isChildList (kind : Kind) (d : Nat) : (listKey kind d).isChildList := by
  cases kind <;> rfl

theorem listed_once {history : History} {id : Nat} {entry : Journal.Entry Kind Text}
    (found : Journal.entryAt history id = some entry) :
    (history.store.lists (listKey entry.kind entry.parent)).count (decimal id) = 1 := by
  have child : id ∈ Journal.children history entry.kind entry.parent :=
    Journal.mem_children.mpr ⟨entry, found, rfl, rfl⟩
  have nodup := (Journal.children_decreasing history entry.kind entry.parent).imp fun less => Nat.ne_of_gt less
  rw [store_list, List.count_map_of_injective _ _ decimal_injective]
  exact List.count_eq_one_of_mem nodup child

end History

namespace Tree

variable (tree : Tree)

theorem list_decreasing {key : Key} (list : key.isChildList) :
    ((tree.store.lists key).map strtol).Pairwise (· > ·) := by
  by_cases known : ∃ kind d, key = listKey kind d
  · obtain ⟨kind, d, rfl⟩ := known
    rw [History.store_list, List.map_map, List.pairwise_map]
    apply (Journal.children_decreasing tree.history kind d).imp_of_mem
    intro first second firstChild secondChild less
    have firstNumber := tree.strtol_number (Journal.children_le firstChild).2
    have secondNumber := tree.strtol_number (Journal.children_le secondChild).2
    simp only [Function.comp, firstNumber, secondNumber]
    exact_mod_cast less
  · rw [History.store_list_other fun kind d same => known ⟨kind, d, same⟩]
    simp

theorem folderHash_fields {d : Int} {id : Nat} (member : decimal id ∈ tree.store.lists (.folderFolders d)) :
    (tree.store.hashes (.folderInfo id)).lookup .parent = some (printLd d) ∧
      tree.store.hashes (.fileInfo id) = [] := by
  obtain ⟨entry, found, here⟩ := History.mem_child_list_decimal rfl member
  have held := History.store_info_some found
  cases kind : entry.kind with
  | file => simp [kind, listKey] at here
  | folder =>
    have same : d = entry.parent := by simpa [kind, listKey] using here
    have absent : tree.store.hashes (infoKey .file id) = [] := by
      have bound := Journal.entryAt_le found
      refine History.store_info_none (by omega) fun other again => ?_
      rw [found] at again
      cases again
      simp [kind]
    rw [kind] at held
    change tree.store.hashes (.folderInfo id) = _ at held
    refine ⟨?_, absent⟩
    rw [held, same, printLd_natCast, infoHash, kind]
    rfl

theorem fileHash_fields {d : Int} {id : Nat} (member : decimal id ∈ tree.store.lists (.folderFiles d)) :
    tree.store.hashes (.fileInfo id) ≠ [] ∧ tree.store.hashes (.folderInfo id) = [] := by
  obtain ⟨entry, found, here⟩ := History.mem_child_list_decimal rfl member
  have held := History.store_info_some found
  cases kind : entry.kind with
  | folder => simp [kind, listKey] at here
  | file =>
    have absent : tree.store.hashes (infoKey .folder id) = [] := by
      have bound := Journal.entryAt_le found
      refine History.store_info_none (by omega) fun other again => ?_
      rw [found] at again
      cases again
      simp [kind]
    rw [kind] at held
    change tree.store.hashes (.fileInfo id) = _ at held
    refine ⟨?_, absent⟩
    rw [held, infoHash, kind]
    simp [fileHash]

theorem store_representation : RepresentationInvariant tree.store (tree.history.length + 1) where
  count := History.store_count tree.history
  positive := by omega
  listed := by
    intro key list element member
    obtain ⟨id, entry, found, same, _⟩ := History.mem_child_list list member
    have bound := Journal.entryAt_le found
    exact ⟨id, bound.1, by omega, same⟩
  once := by
    intro id positive bound
    obtain ⟨entry, found⟩ := Journal.entryAt_some positive (Nat.le_of_lt_succ bound)
    refine ⟨_, History.listKey_isChildList _ _, History.listed_once found, ?_⟩
    intro other list member
    obtain ⟨again, foundAgain, here⟩ := History.mem_child_list_decimal list member
    rw [found] at foundAgain
    cases foundAgain
    exact here
  decreasing := fun _ list => tree.list_decreasing list
  folder := fun _ _ member => tree.folderHash_fields member
  file := fun _ _ member => tree.fileHash_fields member
  root := by rw [History.store_root]; rfl

end Tree

theorem Reachable.representation {state : State} (reached : Reachable state) :
    ∃ c, RepresentationInvariant state.store c := by
  obtain ⟨tree, cwd, holds⟩ := reached.represented
  exact ⟨_, holds.store ▸ tree.store_representation⟩

theorem representation_nested : ∃ store : Store,
    store.lists (.folderFolders 0) = ["1".toList] ∧ store.lists (.folderFiles 1) = ["2".toList] ∧
      ∃ c, RepresentationInvariant store c := by
  obtain ⟨tree, history, reached⟩ := reachable_file_inside
  refine ⟨tree.store, ?_, ?_, Reachable.representation reached⟩
  · rw [Tree.store, history]; decide
  · rw [Tree.store, history]; decide

end RedisVfs
