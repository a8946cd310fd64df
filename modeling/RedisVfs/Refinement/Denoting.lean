import RedisVfs.Refinement.Stating
import RedisVfs.Refinement.Viewing

set_option autoImplicit false

namespace RedisVfs

open CString Directory

inductive Store.Denotes (store : Store) (d : Int) (path : Text) : Kind → Int → Prop
  | folder {id : Int} (walk : store.view.Walk (origin d path) (components (path.drop (pathLead path).length)) id) :
      Denotes store d path .folder id
  | file {m id : Int} (named : Segments.rest '/' path ≠ [])
      (folders : store.view.Walk (origin d path) (pathWords path) m) (listed : id ∈ store.files m)
      (called : store.fileName id = some (Segments.rest '/' path)) : Denotes store d path .file id

-- A path that is read name by name: its folders are straight and one each, what is found for its last
-- name is called exactly so, and it denotes no two objects.
structure Store.ReadsPlainly (store : Store) (d : Int) (path : Text) : Prop where
  folders : ∀ location, locate path = some location →
    store.view.Straight (origin d path) location.folders ∧ store.view.Single (origin d path) location.folders
  last : ∀ location, locate path = some location →
    ∀ m, store.view.Walk (origin d path) location.folders m → location.last ≠ [] ∧
      (store.oldestFile m location.last location.slash ≠ none → location.slash = false) ∧
        (store.oldestFile m location.last location.slash = none → Proper location.last →
          ∀ e, store.view.firstBeginning m location.last = some e → store.folderName e = some location.last)
  one : ∀ kind object kind' object', store.Denotes d path kind object → store.Denotes d path kind' object' →
    kind = kind' ∧ object = object'

namespace Tree

variable {tree : Tree} {start : Nat} {d : Int} {path : Text} {location : Location}

theorem denotes_last (from_ : origin d path = start) (located : locate path = some location) {kind : Kind}
    {object : Int} (denotes : tree.store.Denotes d path kind object) :
    ∃ m, tree.store.view.Walk start location.folders m ∧
      (kind = .file ∧ location.slash = false ∧ object ∈ tree.store.files m ∧
          tree.store.fileName object = some location.last ∨
        kind = .folder ∧ tree.store.view.Step m location.last object) := by
  cases denotes with
  | folder walk =>
    rw [Location.path_components located, from_] at walk
    obtain ⟨m, folders, step⟩ := View.walk_concat.mp walk
    exact ⟨m, folders, .inr ⟨rfl, step⟩⟩
  | @file m _ named folders listed called =>
    have open_ : location.slash = false := by
      have rest := location.rest_text
      rw [← (locate_some located).1] at rest
      cases slash : location.slash with
      | false => rfl
      | true => exact absurd (by rw [rest, slash]; rfl) named
    obtain ⟨words, last⟩ := Location.path_open located open_
    rw [words, from_] at folders
    exact ⟨m, folders, .inl ⟨rfl, open_, listed, last ▸ called⟩⟩

theorem denotes_of_last (from_ : origin d path = start) (located : locate path = some location) {m object : Int}
    (folders : tree.store.view.Walk start location.folders m) :
    (tree.store.view.Step m location.last object → tree.store.Denotes d path .folder object) ∧
      (location.slash = false → object ∈ tree.store.files m →
        tree.store.fileName object = some location.last → tree.store.Denotes d path .file object) := by
  constructor
  · intro step
    refine .folder ?_
    rw [Location.path_components located, from_]
    exact View.walk_concat.mpr ⟨m, folders, step⟩
  · intro open_ listed called
    obtain ⟨words, last⟩ := Location.path_open located open_
    refine .file (m := m) ?_ ?_ listed (last ▸ called)
    · rw [last]
      exact Location.named_of_open open_
    · rwa [words, from_]

theorem denotes_found {n : Nat} (from_ : origin d path = start) (linked : tree.history.Linked n)
    (located : locate path = some location) (plain : tree.store.ReadsPlainly d path)
    (folders : tree.store.view.Walk start location.folders n) {kind : Kind} {object : Int}
    (denotes : tree.store.Denotes d path kind object)
    (last : kind = .file ∧ location.slash = false ∧ object ∈ tree.store.files n ∧
          tree.store.fileName object = some location.last ∨
        kind = .folder ∧ tree.store.view.Step n location.last object) :
    ∃ id : Nat, object = id ∧ tree.history.lookup n location.last location.slash = some (kind, id) := by
  obtain ⟨named, closed, exact_⟩ := plain.last location located n (from_ ▸ folders)
  rw [tree.oldestFile_store, Ne, Option.map_eq_none_iff] at closed
  rw [tree.oldestFile_store, Option.map_eq_none_iff] at exact_
  unfold History.lookup
  cases file : tree.history.findFile n location.last location.slash with
  | some id =>
    obtain ⟨member, called⟩ := History.mem_of_findFile file
    have open_ := closed (by simp [file])
    have called : tree.history.name id = location.last := by simpa [fileNamed, open_] using called
    have found := (denotes_of_last from_ located folders).2 open_ (tree.mem_files_store.mpr member)
      ((tree.fileName_store member).trans (congrArg some called))
    obtain ⟨rfl, same⟩ := plain.one _ _ _ _ denotes found
    exact ⟨id, same, rfl⟩
  | none =>
    rcases last with ⟨rfl, open_, listed, called⟩ | ⟨rfl, step⟩
    · rw [tree.files_store] at listed
      obtain ⟨id, member, rfl⟩ := List.mem_map.mp listed
      rw [tree.fileName_store member, Option.some.injEq] at called
      have differs := History.findFile_eq_none.mp file id member
      simp [fileNamed, called] at differs
    · obtain ⟨id, rfl, down⟩ := (tree.view_embeds.step_iff linked).mp step
      refine ⟨id, rfl, ?_⟩
      have there : tree.history.folderNamed n location.last = some id := by
        generalize word : location.last = last at down
        cases down with
        | empty => exact absurd word named
        | dot => simp [History.folderNamed]
        | dots parent => simpa [History.folderNamed, History.view] using parent
        | named proper listed called =>
          subst word
          obtain ⟨e, begins⟩ : ∃ e, tree.history.findFolder n location.last = some e := by
            rw [← Option.ne_none_iff_exists', History.findFolder, Ne, List.find?_eq_none]
            intro none
            have same : tree.history.name id = location.last := Option.some.inj called
            exact none id listed (List.isPrefixOf_iff_prefix.mpr (same ▸ List.prefix_refl _))
          have member := (History.mem_of_findFolder begins).1
          have beginning := exact_ file proper e
            (by rw [tree.firstBeginning_store linked, History.firstBeginning_eq, begins]; rfl)
          have found := (denotes_of_last from_ located folders).1
            (.named proper (tree.mem_folders_store.mpr member) beginning)
          obtain rfl : id = e := Int.ofNat.inj (plain.one _ _ _ _ denotes found).2
          rw [History.folderNamed_proper proper, begins]
      rw [there]
      rfl

theorem denotes_lookup (from_ : origin d path = start) (there : tree.history.Linked start)
    (located : locate path = some location) (plain : tree.store.ReadsPlainly d path) {kind : Kind} {object : Int}
    (denotes : tree.store.Denotes d path kind object) :
    ∃ m id : Nat, tree.history.walk start location.folders = some m ∧ object = id ∧ location.last ≠ [] ∧
      tree.history.lookup m location.last location.slash = some (kind, id) := by
  obtain ⟨straight, single⟩ := plain.folders location located
  obtain ⟨m, reach, last⟩ := denotes_last from_ located denotes
  rw [from_] at straight single
  rcases @leads_of_straight tree start there location.folders [] (by rwa [List.append_nil]) with
    ⟨m', leads, walk⟩ | ⟨_, none⟩
  · obtain rfl := single _ _ walk reach
    rw [tree.leads_store there] at leads
    obtain ⟨n, folders, rfl⟩ := Option.map_eq_some_iff.mp leads
    obtain ⟨id, same, look⟩ := denotes_found from_ (there.walk folders) located plain walk denotes last
    exact ⟨n, id, folders, same, (plain.last location located n (from_ ▸ walk)).1, look⟩
  · exact absurd reach (none m)

end Tree

end RedisVfs
