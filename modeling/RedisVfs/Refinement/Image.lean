import RedisVfs.Source.Runs
import RedisVfs.Tree.Resolution

set_option autoImplicit false

namespace RedisVfs

open CString

def folderHash (parent : Nat) (name : Text) : List (Field × Text) :=
  [(.parent, decimal parent), (.name, quoted name), (.createdData, quoted march7th)]

@[simp] theorem folderHash_parent (parent : Nat) (name : Text) :
    (folderHash parent name).lookup .parent = some (decimal parent) := rfl

@[simp] theorem folderHash_name (parent : Nat) (name : Text) :
    (folderHash parent name).lookup .name = some (quoted name) := rfl

def fileHash (name : Text) : List (Field × Text) :=
  [(.name, quoted name), (.size, quoted (printLu 1)), (.createdData, quoted march7th),
    (.id, quoted "none".toList), (.webUrl, quoted "https://none.com".toList),
    (.apiUrl, quoted "http://none".toList)]

def listKey : Kind → Nat → Key
  | .folder, d => .folderFolders d
  | .file, d => .folderFiles d

def infoKey : Kind → Nat → Key
  | .folder, id => .folderInfo id
  | .file, id => .fileInfo id

def infoHash (entry : Journal.Entry Kind Text) : List (Field × Text) :=
  match entry.kind with
  | .folder => folderHash entry.parent entry.name
  | .file => fileHash entry.name

theorem infoHash_name (entry : Journal.Entry Kind Text) :
    (infoHash entry).lookup .name = some (quoted entry.name) := by
  unfold infoHash
  cases entry.kind <;> rfl

def freshStore : Store :=
  ((Redis.Store.empty.setHash (.folderInfo 0) (folderHash 0 "root".toList)).setString
    .currentIdCount (decimal 1)).setString .isVirtualFileSystemCreated "yes".toList

def record (id : Nat) (entry : Journal.Entry Kind Text) (store : Store) : Store :=
  ((store.setString .currentIdCount (decimal (id + 1))).setList (listKey entry.kind entry.parent)
    (decimal id :: store.lists (listKey entry.kind entry.parent))).setHash (infoKey entry.kind id)
      (infoHash entry)

-- The database that holds a history.
def History.store : History → Store
  | [] => freshStore
  | entry :: history => record (history.length + 1) entry (History.store history)

abbrev Tree.store (tree : Tree) : Store := tree.history.store

namespace History

theorem store_count (history : History) :
    history.store.strings .currentIdCount = some (decimal (history.length + 1)) := by
  cases history <;> simp [store, record, freshStore, Function.update]

theorem listKey_inj {kind kind' : Kind} {d d' : Nat} :
    listKey kind d = listKey kind' d' ↔ kind = kind' ∧ d = d' := by
  cases kind <;> cases kind' <;> simp [listKey]

theorem infoKey_inj {kind kind' : Kind} {id id' : Nat} :
    infoKey kind id = infoKey kind' id' ↔ kind = kind' ∧ id = id' := by
  cases kind <;> cases kind' <;> simp [infoKey]

theorem store_list (history : History) (kind : Kind) (d : Nat) :
    history.store.lists (listKey kind d) = (Journal.children history kind d).map decimal := by
  induction history with
  | nil => rfl
  | cons entry history ih =>
    by_cases here : entry.kind = kind ∧ entry.parent = d
    · obtain ⟨rfl, rfl⟩ := here
      simp [store, record, Journal.children, ih]
    · have other : listKey kind d ≠ listKey entry.kind entry.parent := by
        rw [Ne, listKey_inj]
        rintro ⟨rfl, rfl⟩
        exact here ⟨rfl, rfl⟩
      simp [store, record, Journal.children, here, Function.update_of_ne other, ih]

theorem store_folderFolders (history : History) (d : Nat) :
    history.store.lists (.folderFolders d) = (history.childFolders d).map decimal :=
  store_list history .folder d

theorem store_folderFiles (history : History) (d : Nat) :
    history.store.lists (.folderFiles d) = (history.childFiles d).map decimal :=
  store_list history .file d

theorem store_list_other {history : History} {key : Key} (other : ∀ kind d, key ≠ listKey kind d) :
    history.store.lists key = [] := by
  induction history with
  | nil => rfl
  | cons entry history ih =>
    simpa [store, record, Function.update_of_ne (other entry.kind entry.parent)] using ih

theorem store_list_negative (history : History) {d : Int} (negative : d < 0) :
    history.store.lists (.folderFolders d) = [] ∧ history.store.lists (.folderFiles d) = [] := by
  constructor
  · refine store_list_other fun kind n same => ?_
    cases kind <;> simp [listKey] at same
    omega
  · refine store_list_other fun kind n same => ?_
    cases kind <;> simp [listKey] at same
    omega

theorem store_root (history : History) :
    history.store.hashes (.folderInfo 0) = folderHash 0 "root".toList := by
  induction history with
  | nil => simp [store, freshStore]
  | cons entry history ih =>
    have other : Key.folderInfo 0 ≠ infoKey entry.kind (history.length + 1) := by
      cases entry.kind <;> simp [infoKey]
      omega
    simpa [store, record, Function.update_of_ne other] using ih

theorem store_listed {history : History} {key : Key} {element : Text}
    (member : element ∈ history.store.lists key) :
    ∃ kind d, key = listKey kind d ∧
      ∃ id ∈ Journal.children history kind d, element = decimal id := by
  by_cases list : ∃ kind d, key = listKey kind d
  · obtain ⟨kind, d, rfl⟩ := list
    rw [store_list] at member
    obtain ⟨id, child, rfl⟩ := List.mem_map.mp member
    exact ⟨kind, d, rfl, id, child, rfl⟩
  · rw [store_list_other fun kind d same => list ⟨kind, d, same⟩] at member
    simp at member

theorem store_info_some {history : History} {id : Nat} {entry : Journal.Entry Kind Text}
    (found : Journal.entryAt history id = some entry) :
    history.store.hashes (infoKey entry.kind id) = infoHash entry := by
  induction history with
  | nil => simp [Journal.entryAt] at found
  | cons head history ih =>
    by_cases newest : id = history.length + 1
    · rw [Journal.entryAt, if_pos newest] at found
      cases found
      simp [store, record, newest]
    · rw [Journal.entryAt, if_neg newest] at found
      have other : infoKey entry.kind id ≠ infoKey head.kind (history.length + 1) := by
        rw [Ne, infoKey_inj]
        exact fun same => newest same.2
      simpa [store, record, Function.update_of_ne other] using ih found

theorem store_info_entry {history : History} {key : Key} (nonroot : key ≠ .folderInfo 0)
    (held : history.store.hashes key ≠ []) :
    ∃ id entry, Journal.entryAt history id = some entry ∧ key = infoKey entry.kind id := by
  induction history with
  | nil =>
    have empty : freshStore.hashes key = [] := by
      simp [freshStore, Redis.Store.empty, Function.update_of_ne nonroot]
    exact absurd empty held
  | cons head history ih =>
    by_cases newest : key = infoKey head.kind (history.length + 1)
    · exact ⟨_, head, Journal.entryAt_newest head history, newest⟩
    · obtain ⟨id, entry, found, same⟩ :=
        ih (by simpa [store, record, Function.update_of_ne newest] using held)
      exact ⟨id, entry, (Journal.entryAt_older head (Journal.entryAt_le found).2).trans found, same⟩

theorem store_info_none {history : History} {id : Nat} {kind : Kind} (nonroot : id ≠ 0)
    (absent : ∀ entry, Journal.entryAt history id = some entry → entry.kind ≠ kind) :
    history.store.hashes (infoKey kind id) = [] := by
  by_contra held
  have other : infoKey kind id ≠ .folderInfo 0 := by cases kind <;> simp [infoKey, nonroot]
  obtain ⟨id', entry, found, same⟩ := store_info_entry other held
  obtain ⟨rfl, rfl⟩ := infoKey_inj.mp same
  exact absent entry found rfl

theorem store_strings_other {history : History} {key : Key} (count : key ≠ .currentIdCount)
    (created : key ≠ .isVirtualFileSystemCreated) : history.store.strings key = none := by
  induction history with
  | nil => simp [store, freshStore, Redis.Store.empty, count, created]
  | cons entry history ih => simpa [store, record, count] using ih

theorem has_info (history : History) (kind : Kind) (id : Nat) :
    history.store.has (infoKey kind id) = !(history.store.hashes (infoKey kind id)).isEmpty := by
  have string : history.store.strings (infoKey kind id) = none := by
    apply store_strings_other <;> cases kind <;> simp [infoKey]
  have list : history.store.lists (infoKey kind id) = [] := by
    apply store_list_other
    intro kind' d
    cases kind <;> cases kind' <;> simp [infoKey, listKey]
  simp [Redis.Store.has, string, list]

end History

theorem build_run (before : Store) : vfsBuildDatabase.run execute before = (.ok (), freshStore) := rfl

end RedisVfs
