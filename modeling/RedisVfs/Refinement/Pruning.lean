import RedisVfs.Refinement.Adrift
import RedisVfs.Tree.Pruned

set_option autoImplicit false

namespace RedisVfs

open CString Directory

namespace Pruned

variable (pruned : Pruned)

def store : Store :=
  { pruned.tree.store with
    lists := fun key => (pruned.tree.store.lists key).filter (· ∉ pruned.gone.map decimal) }

@[simp] theorem store_hashes : pruned.store.hashes = pruned.tree.store.hashes := rfl

@[simp] theorem store_strings : pruned.store.strings = pruned.tree.store.strings := rfl

theorem store_lists (key : Key) :
    pruned.store.lists key = (pruned.tree.store.lists key).filter (· ∉ pruned.gone.map decimal) := rfl

theorem store_list (kind : Kind) (d : Nat) :
    pruned.store.lists (listKey kind d) = (pruned.children kind d).map decimal := by
  have same : (fun id => decide (decimal id ∉ pruned.gone.map decimal)) = fun id => decide (id ∉ pruned.gone) := by
    funext id
    simp only [List.mem_map_of_injective decimal_injective]
  rw [store_lists, History.store_list, List.filter_map, Function.comp_def, same]
  rfl

theorem store_listed {key : Key} {element : Text} (member : element ∈ pruned.store.lists key) :
    ∃ kind d, key = listKey kind d ∧ ∃ id ∈ pruned.children kind d, element = decimal id := by
  obtain ⟨stored, stays⟩ := List.mem_filter.mp member
  obtain ⟨kind, d, rfl, id, child, rfl⟩ := History.store_listed stored
  exact ⟨kind, d, rfl, id, mem_children.mpr ⟨child, fun gone =>
    of_decide_eq_true stays (List.mem_map_of_mem gone)⟩, rfl⟩

variable {pruned}

theorem strtol_child {kind : Kind} {d id : Nat} (listed : id ∈ pruned.children kind d) :
    strtol (decimal id) = id :=
  pruned.tree.strtol_number (Journal.children_le (mem_children.mp listed).1).2

theorem folders_store (d : Nat) : pruned.store.folders d = (pruned.children .folder d).map Nat.cast := by
  have list := pruned.store_list .folder d
  rw [listKey] at list
  rw [Store.folders, list, List.map_map]
  exact List.map_congr_left fun id listed => strtol_child listed

theorem files_store (d : Nat) : pruned.store.files d = (pruned.children .file d).map Nat.cast := by
  have list := pruned.store_list .file d
  rw [listKey] at list
  rw [Store.files, list, List.map_map]
  exact List.map_congr_left fun id listed => strtol_child listed

theorem mem_folders {d e : Int} :
    e ∈ pruned.store.folders d ↔ ∃ m id : Nat, d = m ∧ e = id ∧ id ∈ pruned.children .folder m := by
  constructor
  · intro listed
    obtain ⟨element, stored, rfl⟩ := List.mem_map.mp listed
    obtain ⟨kind, m, key, id, child, rfl⟩ := pruned.store_listed stored
    cases kind with
    | file => cases key
    | folder => exact ⟨m, id, by simpa [listKey] using key, strtol_child child, child⟩
  · rintro ⟨m, id, rfl, rfl, child⟩
    rw [folders_store]
    exact List.mem_map_of_mem child

theorem folderName_store {id : Nat} (linked : pruned.history.Linked id) :
    pruned.store.folderName id = some (pruned.history.name id) :=
  pruned.tree.folderName_store (pruned.tree.linked_folder linked)

theorem fileName_store {d id : Nat} (listed : id ∈ pruned.children .file d) :
    pruned.store.fileName id = some (pruned.history.name id) :=
  pruned.tree.fileName_store (mem_children.mp listed).1

theorem folderParent_store {id : Nat} (linked : pruned.history.Linked id) :
    pruned.store.folderParent id = some (pruned.history.parent id : Int) :=
  pruned.tree.folderParent_store linked

-- Every folder that a chain of parents ties to the root can be read from, also where it is not listed.
theorem readable_linked :
    pruned.store.Readable fun d => ∃ id : Nat, d = id ∧ pruned.history.Linked id where
  range := by
    rintro d ⟨id, rfl, linked⟩
    exact ⟨Int.natCast_nonneg id, pruned.tree.linked_le_long linked.le⟩
  named := by
    rintro d ⟨id, rfl, linked⟩
    exact ⟨_, folderName_store linked⟩
  above := by
    rintro d ⟨id, rfl, linked⟩
    refine ⟨_, folderParent_store linked, ⟨_, rfl, linked.parent⟩, ?_, fun nonroot => ?_⟩
    · exact_mod_cast pruned.tree.parent_le linked
    · exact_mod_cast (pruned.tree.parent_lists linked (by exact_mod_cast nonroot)).2
  folder := by
    rintro d e ⟨id, rfl, linked⟩ listed
    obtain ⟨m, child, same, rfl, member⟩ := mem_folders.mp listed
    obtain rfl : id = m := by exact_mod_cast same
    exact ⟨child, rfl, linked.of_child (mem_children.mp member).1⟩
  file := by
    rintro d e ⟨id, rfl, linked⟩ listed
    rw [files_store] at listed
    obtain ⟨file, member, rfl⟩ := List.mem_map.mp listed
    have child := (mem_children.mp member).1
    exact ⟨Int.natCast_nonneg file, pruned.tree.linked_le_long (Journal.children_le child).2,
      _, fileName_store member, pruned.tree.child_closed child⟩

theorem adrift (small : pruned.tree.Small) : pruned.store.Adrift where
  folders := by
    intro e listed
    rw [unsigned_sentinel, folders_store] at listed
    obtain ⟨id, member, rfl⟩ := List.mem_map.mp listed
    have child := (mem_children.mp member).1
    obtain ⟨entry, found, kind, -⟩ := Journal.mem_children.mp child
    refine ⟨Int.natCast_nonneg id, pruned.tree.linked_le_long (Journal.children_le child).2, ?_⟩
    exact (pruned.tree.folderName_store (.inr ⟨entry, found, kind⟩)).trans
      (congrArg some (small.bare _ id child))
  files := by
    intro e listed
    rw [unsigned_sentinel, files_store] at listed
    obtain ⟨id, member, rfl⟩ := List.mem_map.mp listed
    have child := (mem_children.mp member).1
    exact ⟨Int.natCast_nonneg id, pruned.tree.linked_le_long (Journal.children_le child).2,
      (fileName_store member).trans (congrArg some (small.bare _ id child))⟩
  above := by
    have stops := pruned.tree.above_sentinel
    rw [Tree.above] at stops
    rw [store_hashes]
    cases held : (pruned.tree.store.hashes (.folderInfo (unsigned (-1)))).lookup .parent with
    | none => rfl
    | some value =>
      rw [held] at stops
      cases stops

theorem root_linked : ∃ id : Nat, (0 : Int) = id ∧ pruned.history.Linked id := ⟨0, rfl, .root⟩

theorem reached_iff {d : Int} : pruned.store.FolderReached d ↔ ∃ id : Nat, d = id ∧ pruned.Kept id := by
  constructor
  · intro reached
    induction reached with
    | root => exact ⟨0, rfl, .root⟩
    | child _ listed ih =>
      obtain ⟨id, rfl, kept⟩ := ih
      obtain ⟨m, child, same, rfl, member⟩ := mem_folders.mp listed
      obtain rfl : id = m := by exact_mod_cast same
      exact ⟨child, rfl, kept.of_child member⟩
  · rintro ⟨id, rfl, kept⟩
    induction kept with
    | root => exact .root
    | child found kind stays _ ih =>
      refine .child ih (mem_folders.mpr ⟨_, _, rfl, rfl, ?_⟩)
      exact mem_children.mpr ⟨Journal.mem_children.mpr ⟨_, found, kind, rfl⟩, stays⟩

theorem forest : pruned.store.view.Forest :=
  pruned.tree.forest.of_subset fun d e listed => by
    obtain ⟨m, id, rfl, rfl, member⟩ := mem_folders.mp listed
    exact pruned.tree.mem_folders_store.mpr (mem_children.mp member).1

theorem root_unlisted (d : Int) : (0 : Int) ∉ pruned.store.view.folders d := by
  intro listed
  obtain ⟨m, id, -, same, member⟩ := mem_folders.mp listed
  have positive := (Journal.children_le (mem_children.mp member).1).1
  omega

theorem info_name {kind : Kind} {d id : Nat} (listed : id ∈ pruned.children kind d) :
    (pruned.store.hashes (infoKey kind id)).lookup .name = some (quoted (pruned.history.name id)) := by
  obtain ⟨entry, found, rfl, -⟩ := Journal.mem_children.mp (mem_children.mp listed).1
  rw [store_hashes, Tree.store, History.store_info_some found, infoHash_name, History.name,
    Journal.name_of_entry found]

theorem info_parent {d id : Nat} (listed : id ∈ pruned.children .folder d) :
    (pruned.store.hashes (.folderInfo id)).lookup .parent = some (decimal d) := by
  obtain ⟨entry, found, kind, rfl⟩ := Journal.mem_children.mp (mem_children.mp listed).1
  rw [store_hashes, pruned.tree.folder_held (.inr ⟨entry, found, kind⟩), folderHash_parent, History.parent,
    Journal.parent_of_entry found]

theorem hash_append (entries : History) {history : History} (kind : Kind) {id : Nat}
    (old : id ≤ history.length) :
    (History.store (entries ++ history)).hashes (infoKey kind id) = history.store.hashes (infoKey kind id) := by
  induction entries with
  | nil => rfl
  | cons entry entries ih =>
    have other : infoKey kind id ≠ infoKey entry.kind ((entries ++ history).length + 1) := by
      rw [Ne, History.infoKey_inj, List.length_append]
      omega
    rw [List.cons_append, History.store, record, Redis.Store.setHash_hashes, Function.update_of_ne other]
    exact ih

theorem lrem_store (key : Key) (element : Text) :
    (execute pruned.store (.lrem key element)).2 = pruned.store ∨
      ∃ (kind : Kind) (d id : Nat) (listed : id ∈ pruned.children kind d), key = listKey kind d ∧
        element = decimal id ∧ (execute pruned.store (.lrem key element)).2 = (pruned.remove listed).store := by
  have fewer : (execute pruned.store (.lrem key element)).2 =
      pruned.store.setList key ((pruned.store.lists key).filter (· ≠ element)) := rfl
  by_cases member : element ∈ pruned.store.lists key
  · obtain ⟨kind, d, rfl, id, listed, rfl⟩ := pruned.store_listed member
    refine .inr ⟨kind, d, id, listed, rfl, rfl, ?_⟩
    rw [fewer]
    refine Redis.Store.ext rfl (funext fun key => ?_) rfl
    have split (stored : List Text) : stored.filter (· ∉ (id :: pruned.gone).map decimal) =
        (stored.filter (· ∉ pruned.gone.map decimal)).filter (· ≠ decimal id) := by
      rw [List.filter_filter]
      refine List.filter_congr fun element _ => ?_
      simp only [List.map_cons, List.mem_cons, not_or, Bool.decide_and]
    rw [store_lists (pruned.remove listed), remove, split, Redis.Store.setList_lists]
    by_cases here : key = listKey kind d
    · subst here
      rw [Function.update_self]
      rfl
    · rw [Function.update_of_ne here]
      refine (List.filter_eq_self.mpr fun element there => ?_).symm
      obtain ⟨kind', d', rfl, id', listed', rfl⟩ := pruned.store_listed there
      refine decide_eq_true fun same => here ?_
      obtain rfl := decimal_injective same
      obtain ⟨entry, found, rfl, rfl⟩ := Journal.mem_children.mp (mem_children.mp listed).1
      obtain ⟨entry', found', rfl, rfl⟩ := Journal.mem_children.mp (mem_children.mp listed').1
      cases found.symm.trans found'
      rfl
  · refine .inl ?_
    have same : (pruned.store.lists key).filter (· ≠ element) = pruned.store.lists key :=
      List.filter_eq_self.mpr fun other there => decide_eq_true fun equal => member (equal ▸ there)
    rw [fewer, same]
    exact Redis.Store.ext rfl (Function.update_eq_self _ _) rfl

theorem accepts_store : pruned.store.Accepts ↔ pruned.tree.store.Accepts := by
  unfold Store.Accepts
  simp only [execute, Redis.execute, store_strings]
  split
  · split <;> simp
  · simp

theorem count_store (pruned : Pruned) : pruned.store.count = ((pruned.history.length + 1 : Nat) : Int) := by
  have held : pruned.store.strings .currentIdCount = some (decimal (pruned.history.length + 1)) :=
    History.store_count pruned.history
  have bounded : (pruned.history.length : Int) < LONG_MAX := pruned.tree.bounded
  unfold Store.count
  rw [held]
  exact strtol_decimal_of_le (by push_cast; omega)

theorem small_iff : pruned.tree.Small ↔ pruned.store.count ≤ 2 ^ 31 := by
  change pruned.history.length < 2 ^ 31 ↔ _
  rw [count_store]
  omega

theorem numbered : pruned.store.Numbered pruned.history.length where
  listed d element member :=
    pruned.tree.numbered.listed d element (List.mem_of_mem_filter member)
  above := pruned.tree.numbered.above

theorem narrow (small : pruned.tree.Small) {d : Int} (linked : ∃ id : Nat, d = id ∧ pruned.history.Linked id) :
    d < 2 ^ 31 := by
  obtain ⟨id, rfl, linked⟩ := linked
  have bound : id ≤ pruned.tree.history.length := linked.le
  unfold Tree.Small at small
  omega

theorem placing_takes {fuel : Nat} {context : FsContext} {path name : Text} {parentId : Int}
    (placed : pruned.store.placing fuel context path = .ok (some (parentId, name))) :
    pruned.history.Takes (unsigned parentId) name := by
  obtain ⟨_, cwdId, parserState, format, -, parse, rfl, rfl⟩ := Store.placing_iff.mp placed
  obtain ⟨body, rfl⟩ := Store.format_absolute format
  by_cases small : pruned.tree.Small
  · have ran := pruned.store.parsed_run cwdId ('/' :: body)
    rw [parse] at ran
    rcases readable_linked.parse_absolute_run root_linked (fun d => narrow small) initVfsPathParserState cwdId
      body with ⟨_, run⟩ | ⟨_, there, run⟩
    · cases ran.symm.trans run
    · cases ran.symm.trans run
      rcases there with ⟨lost, bare⟩ | ⟨⟨id, here, linked⟩, shaped⟩
      · rw [lost, bare]
        exact pruned.history.takes_nowhere
      · rw [here, pruned.tree.number linked.le]
        exact linked.takes shaped
  · rcases numbered.parsed parse (by decide) with ⟨lost, bare⟩ | ⟨ranged, shaped⟩
    · rw [lost, bare]
      exact pruned.history.takes_nowhere
    · exact .inr ⟨shaped, ranged.unsigned pruned.tree.bounded, fun few => absurd few small⟩

section Made

variable (accepts : pruned.store.Accepts)

include accepts

theorem room : (pruned.history.length : Int) + 1 < LONG_MAX :=
  pruned.tree.accepts_iff.mp (accepts_store.mp accepts)

theorem counted_store : pruned.store.counted =
    pruned.store.setString .currentIdCount (decimal (pruned.history.length + 1 + 1)) := by
  have room := room accepts
  have held : pruned.store.strings .currentIdCount = some (decimal (pruned.history.length + 1)) :=
    History.store_count pruned.history
  unfold Store.counted
  rw [if_neg (by simp [held])]
  exact congrArg Prod.snd (Redis.execute_incr_decimal held (by push_cast; omega))

theorem made_store {kind : Kind} {parentId : Int} {name : Text} {tree' : Tree}
    (grown : tree'.history = ⟨kind, unsigned parentId, name⟩ :: pruned.history) :
    (Kind.creation kind parentId name).made pruned.store = (pruned.extend tree' grown).store := by
  have list : (Kind.creation kind parentId name).list = listKey kind (unsigned parentId) := by
    cases kind <;> rfl
  have number : unsigned ((pruned.history.length + 1 : Nat) : Int) = pruned.history.length + 1 :=
    unsigned_natCast (by have := room accepts; push_cast; omega)
  have info : (Kind.creation kind parentId name).info ((pruned.history.length + 1 : Nat) : Int) =
      infoKey kind (pruned.history.length + 1) := by
    cases kind <;> simp only [Kind.creation, Creation.info, infoKey, number]
  have absent : pruned.store.hashes (infoKey kind (pruned.history.length + 1)) = [] :=
    pruned.tree.newInfo_absent kind
  have values : Redis.setFields [] (Kind.creation kind parentId name).values =
      infoHash ⟨kind, unsigned parentId, name⟩ := by
    cases kind <;> rfl
  have store' : tree'.store = record (pruned.history.length + 1) ⟨kind, unsigned parentId, name⟩
      pruned.tree.store := by
    rw [Tree.store, grown]
    rfl
  have printed : printLu ((pruned.history.length + 1 : Nat) : Int) = decimal (pruned.history.length + 1) := by
    rw [printLu, number]
  have stays : decimal (pruned.history.length + 1) ∉ pruned.gone.map decimal := by
    rw [List.mem_map_of_injective decimal_injective]
    intro gone
    exact absurd (pruned.created _ gone) (Nat.not_succ_le_self _)
  rw [Creation.made, count_store, counted_store accepts, list, info, printed, absent, values]
  refine Redis.Store.ext ?_ (funext fun key => ?_) ?_
  · rw [store_strings]
    change _ = tree'.store.strings
    rw [store']
    rfl
  · rw [store_lists]
    change _ = (tree'.store.lists key).filter (· ∉ pruned.gone.map decimal)
    rw [store']
    simp only [record, Redis.Store.setHash_lists, Redis.Store.setList_lists, Redis.Store.setString_lists]
    by_cases here : key = listKey kind (unsigned parentId)
    · subst here
      rw [Function.update_self, Function.update_self, List.filter_cons, if_pos (decide_eq_true stays)]
    · rw [Function.update_of_ne here, Function.update_of_ne here]
      rfl
  · rw [store_hashes]
    change _ = tree'.store.hashes
    rw [store']
    rfl

end Made

end Pruned

end RedisVfs
