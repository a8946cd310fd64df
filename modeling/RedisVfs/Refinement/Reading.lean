import RedisVfs.Refinement.Image

set_option autoImplicit false

namespace RedisVfs

open CString

@[simp] theorem run_redisCommand (command : Redis.Command Key Field) (store : Store) :
    (redisCommand command).run execute store =
      (.ok (execute store command).1, (execute store command).2) := rfl

-- -1 is the code's "not found".
def asId : Option Nat → Int
  | some id => id
  | none => -1

theorem asId_eq_neg_one {found : Option Nat} : asId found = -1 ↔ found = none := by
  cases found with
  | none => simp [asId]
  | some id => simp [asId]

theorem asId_eq_natCast {found : Option Nat} {id : Nat} : asId found = id ↔ found = some id := by
  cases found with
  | none => simp [asId]
  | some other => simp [asId]

theorem asId_injective : Function.Injective asId := by
  intro found found' same
  cases found' with
  | none => exact asId_eq_neg_one.mp same
  | some id => exact asId_eq_natCast.mp same

section Fields

variable {store : Store} {number id : Nat} {name : Text}

theorem hget_run {key : Key} {field : Field} {value : Text}
    (held : (store.hashes key).lookup field = some value) :
    (redisCommand (.hget key field)).run execute store = (.ok (.string value), store) := by
  simp [execute, Redis.execute, held]

theorem vfsGetFileName_run {id : Int}
    (held : (store.hashes (.fileInfo (unsigned id))).lookup .name = some (quoted name)) :
    (vfsGetFileName id).run execute store = (.ok name, store) := by
  rw [vfsGetFileName, Program.run_bind_ok execute (hget_run held)]
  simp [dereference, Redis.Reply.str]

theorem vfsGetFolderName_run {id : Int}
    (held : (store.hashes (.folderInfo (unsigned id))).lookup .name = some (quoted name)) :
    (vfsGetFolderName id).run execute store = (.ok name, store) := by
  rw [vfsGetFolderName, Program.run_bind_ok execute (hget_run held)]
  simp [dereference, Redis.Reply.str]

theorem redisGetFolderParentId_run {id : Int} {value : Text}
    (held : (store.hashes (.folderInfo (unsigned id))).lookup .parent = some value) :
    (redisGetFolderParentId id).run execute store = (.ok (strtol value), store) := by
  rw [redisGetFolderParentId, Program.run_bind_ok execute (hget_run held)]
  rfl

theorem vfsGetDirParent_run {id : Int} {value : Text}
    (held : (store.hashes (.folderInfo (unsigned id))).lookup .parent = some value) :
    (vfsGetDirParent id).run execute store = (.ok (strtol value), store) := by
  rw [vfsGetDirParent, Program.run_bind_ok execute (hget_run held)]
  rfl

end Fields

namespace Tree

variable (tree : Tree)

theorem number {id : Nat} (bound : id ≤ tree.history.length) : unsigned (id : Int) = id :=
  unsigned_natCast (tree.linked_le_long bound)

theorem strtol_number {id : Nat} (bound : id ≤ tree.history.length) : strtol (decimal id) = id :=
  strtol_decimal_of_le (tree.linked_le_long bound)

theorem file_name_held {id : Nat} {entry : Journal.Entry Kind Text}
    (found : Journal.entryAt tree.history id = some entry) (kind : entry.kind = .file) :
    (tree.store.hashes (.fileInfo id)).lookup .name = some (quoted (tree.history.name id)) := by
  have held := History.store_info_some found
  rw [kind] at held
  change tree.store.hashes (.fileInfo id) = _ at held
  rw [held, History.name, Journal.name_of_entry found, infoHash, kind]
  rfl

theorem file_name_run {d id : Nat} (member : id ∈ tree.history.childFiles d) :
    (vfsGetFileName id).run execute tree.store = (.ok (tree.history.name id), tree.store) := by
  obtain ⟨entry, found, kind, _⟩ := Journal.mem_children.mp member
  apply vfsGetFileName_run
  rw [tree.number (Journal.entryAt_le found).2]
  exact tree.file_name_held found kind

theorem folder_held {id : Nat}
    (folder : id = 0 ∨ ∃ entry, Journal.entryAt tree.history id = some entry ∧ entry.kind = .folder) :
    tree.store.hashes (.folderInfo id) = folderHash (tree.history.parent id) (tree.history.name id) := by
  rcases folder with rfl | ⟨entry, found, kind⟩
  · simpa [History.parent, History.name, Journal.parent, Journal.name, Journal.entryAt_zero] using
      History.store_root tree.history
  · have held := History.store_info_some found
    rw [kind] at held
    change tree.store.hashes (.folderInfo id) = _ at held
    rw [held, History.parent, History.name, Journal.parent_of_entry found,
      Journal.name_of_entry found, infoHash, kind]

theorem linked_folder {id : Nat} (linked : tree.history.Linked id) :
    id = 0 ∨ ∃ entry, Journal.entryAt tree.history id = some entry ∧ entry.kind = .folder := by
  cases linked with
  | root => exact .inl rfl
  | child found kind above => exact .inr ⟨_, found, kind⟩

theorem linked_held {id : Nat} (linked : tree.history.Linked id) :
    tree.store.hashes (.folderInfo (unsigned (id : Int))) =
      folderHash (tree.history.parent id) (tree.history.name id) := by
  rw [tree.number linked.le]
  exact tree.folder_held (tree.linked_folder linked)

theorem folder_name_run {d id : Nat} (member : id ∈ tree.history.childFolders d) :
    (vfsGetFolderName id).run execute tree.store = (.ok (tree.history.name id), tree.store) := by
  obtain ⟨entry, found, kind, _⟩ := Journal.mem_children.mp member
  apply vfsGetFolderName_run
  rw [tree.number (Journal.entryAt_le found).2, tree.folder_held (.inr ⟨entry, found, kind⟩)]
  rfl

theorem linked_parent_run {id : Nat} (linked : tree.history.Linked id) :
    (vfsGetDirParent id).run execute tree.store = (.ok (tree.history.parent id : Int), tree.store) := by
  have held : (tree.store.hashes (.folderInfo (unsigned (id : Int)))).lookup .parent =
      some (decimal (tree.history.parent id)) := by
    rw [tree.linked_held linked]
    rfl
  rw [vfsGetDirParent_run held, tree.strtol_number linked.parent.le]

end Tree

section Lookup

variable (tree : Tree)

theorem findFileLoop_run {d : Nat} {ids : List Nat} (text : Text) (length : Nat) (matchId : Int)
    (members : ∀ id ∈ ids, id ∈ tree.history.childFiles d) :
    (findFileLoop text length matchId (ids.map decimal)).run execute tree.store =
      (.ok (match ids.reverse.find? fun id =>
          strncmpEq text (tree.history.name id) (max length (tree.history.name id).length) with
        | some id => (id : Int)
        | none => matchId), tree.store) := by
  induction ids generalizing matchId with
  | nil => rfl
  | cons id ids ih =>
    have member := members id (by simp)
    rw [List.map_cons, findFileLoop, tree.strtol_number (Journal.children_le member).2,
      Program.run_bind_ok execute (tree.file_name_run member),
      ih _ (fun other later => members other (by simp [later]))]
    rw [List.reverse_cons, List.find?_append]
    cases ids.reverse.find? _ with
    | some other => rfl
    | none =>
      by_cases same : strncmpEq text (tree.history.name id)
        (max length (tree.history.name id).length) = true <;> simp [same]

theorem findDirLoop_run {d : Nat} {ids : List Nat} (text : Text) (length : Nat)
    (members : ∀ id ∈ ids, id ∈ tree.history.childFolders d) :
    (findDirLoop text length (ids.map decimal)).run execute tree.store =
      (.ok (asId (ids.find? fun id => strncmpEq text (tree.history.name id) length)), tree.store) := by
  induction ids with
  | nil => rfl
  | cons id ids ih =>
    have member := members id (by simp)
    rw [List.map_cons, findDirLoop, tree.strtol_number (Journal.children_le member).2,
      Program.run_bind_ok execute (tree.folder_name_run member)]
    by_cases same : strncmpEq text (tree.history.name id) length = true
    · simp [same, asId]
    · simpa [same] using ih fun other later => members other (by simp [later])

def Follows (slash : Bool) (after : Text) : Prop :=
  if slash then ∃ more, after = '/' :: more else after = []

theorem Closed.after_slash {word after : Text} (free : Segments.Free '/' word)
    (closed : Closed (word ++ '/' :: after)) : after = [] := by
  obtain ⟨base, slash, baseFree, same⟩ := closed
  cases slash with
  | false =>
    have whole : word ++ '/' :: after = base := by simpa [trail] using same
    exact absurd (by simp) (whole ▸ baseFree)
  | true =>
    have whole : word ++ '/' :: after = base ++ '/' :: [] := same
    have words := congrArg (Segments.words '/') whole
    rw [Segments.words_closed free, Segments.words_closed baseFree] at words
    have first : word = base := (List.cons.inj words).1
    subst first
    exact (List.cons.inj (List.append_cancel_left whole)).2

-- The lookup reads past the word, but names hold no '/' except as their last character.
theorem fileMatch_closed {word after name : Text} {slash : Bool} (free : Segments.Free '/' word)
    (follows : Follows slash after) (closed : Closed name) :
    strncmpEq (word ++ after) name (max word.length name.length) = fileNamed word slash name := by
  rw [Bool.eq_iff_iff, strncmpEq_iff, List.take_of_length_le (Nat.le_max_right _ _)]
  cases slash with
  | false =>
    have bare : after = [] := by simpa [Follows] using follows
    rw [bare, List.append_nil, List.take_of_length_le (Nat.le_max_left _ _)]
    simpa [fileNamed] using eq_comm
  | true =>
    obtain ⟨more, rfl⟩ : ∃ more, after = '/' :: more := by simpa [Follows] using follows
    have named : fileNamed word true name = true ↔ name = word ∨ name = word ++ ['/'] := by
      simp [fileNamed]
    rw [named]
    by_cases shorter : name.length ≤ word.length
    · rw [Nat.max_eq_left shorter, List.take_left]
      refine ⟨fun same => .inl same.symm, fun same => same.elim Eq.symm fun longer => ?_⟩
      simp [longer] at shorter
    · obtain ⟨extra, split⟩ : ∃ extra, name.length = word.length + (extra + 1) :=
        ⟨name.length - word.length - 1, by omega⟩
      rw [Nat.max_eq_right (by omega), split, List.take_length_add_append, List.take_succ_cons]
      constructor
      · intro same
        rw [← same] at closed ⊢
        rw [closed.after_slash free]
        exact .inr rfl
      · rintro (rfl | rfl)
        · simp at split
        · have none : extra = 0 := by simpa using split
          simp [none]

end Lookup

end RedisVfs
