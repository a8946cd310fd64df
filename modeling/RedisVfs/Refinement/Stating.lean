import RedisVfs.Refinement.Placing

set_option autoImplicit false

namespace RedisVfs

open CString

theorem Location.pathLead_text {location : Location} {path : Text}
    (located : locate path = some location) : pathLead path = location.lead := by
  have absolute := (locate_some located).2
  unfold pathLead Location.lead
  cases lead : location.absolute <;> simp [← absolute, lead]

theorem Location.path_components {location : Location} {path : Text}
    (located : locate path = some location) :
    components (path.drop (pathLead path).length) = location.folders ++ [location.last] := by
  have text : path.drop (pathLead path).length =
      Segments.unite '/' location.folders ++ (location.last ++ trail location.slash) := by
    rw [Location.pathLead_text located]
    conv_lhs => rw [(locate_some located).1, Location.text, List.drop_left]
  rw [text, components_unite location.foldersFree, components_named location.lastFree location.ends]

theorem Location.components {location : Location} {body : Text}
    (located : locate ('/' :: body) = some location) :
    components body = location.folders ++ [location.last] :=
  Location.path_components located

theorem Location.path_open {location : Location} {path : Text} (located : locate path = some location)
    (open_ : location.slash = false) :
    pathWords path = location.folders ∧ Segments.rest '/' path = location.last := by
  have named := Location.named_of_open open_
  have last : Segments.rest '/' path = location.last := by
    rw [(locate_some located).1, location.rest_text, open_]
    rfl
  have parts := Location.path_components located
  rw [RedisVfs.components, rest_drop_lead, last, if_neg named] at parts
  exact ⟨(List.append_inj' parts rfl).1, last⟩

theorem Location.getLast? {location : Location} :
    location.text.getLast? = some '/' ↔ location.slash = true := by
  rw [getLast?_eq_slash, location.rest_text]
  cases slash : location.slash with
  | true => simp [location.text_ne_nil]
  | false =>
    have named := Location.named_of_open slash
    simp [named]

def Kind.itemType : Kind → DirItemType
  | .folder => .DIR_ITEM_FOLDER
  | .file => .DIR_ITEM_FILE

namespace History

def fileAt (history : History) (location : Location) : Option Nat :=
  (history.walk 0 location.folders).bind fun d => history.findFile d location.last location.slash

def objectAt (history : History) (body : Text) : Option (Kind × Nat) :=
  match locate ('/' :: body) with
  | none => some (.folder, 0)
  | some location =>
      match if location.slash then none else history.fileAt location with
      | some id => some (.file, id)
      | none => (history.walk 0 (location.folders ++ [location.last])).map fun id => (.folder, id)

def dirItemInfo (history : History) : Option (Kind × Nat) → DirItemInfo
  | none => { id := -1, exists_ := false, type := none, parentId := none, name := [] }
  | some (.file, id) =>
      { id, exists_ := true, type := some .DIR_ITEM_FILE, parentId := none, name := history.name id }
  | some (.folder, id) =>
      { id, exists_ := true, type := some .DIR_ITEM_FOLDER, parentId := none, name := history.name id }

end History

namespace Tree

variable (tree : Tree)

section Absolute

variable {cwd body : Text} (start : tree.history.view.Within (· < 2 ^ 31) 0 (components cwd))
  (within : PathWithin tree.history.view (· < 2 ^ 31) 0 ('/' :: body))

include start within

theorem getFileId_absolute_run {location : Location} (located : locate ('/' :: body) = some location) :
    (getFileIdFromPath { cwd := '/' :: cwd } ('/' :: body)).run execute tree.store =
      (.ok (asId (if location.last = [] then none else tree.history.fileAt location)), tree.store) := by
  have cwdRun := tree.store.cwdId_run { cwd := '/' :: cwd }
  rw [tree.cwdId_linked start] at cwdRun
  rw [getFileIdFromPath, Program.run_bind_ok execute cwdRun,
    Program.run_bind_ok execute (tree.parsePath_absolute _ _ within.parse)]
  simp only [History.parse, located, History.fileAt]
  cases walk : tree.history.walk 0 location.folders with
  | none => cases location.last <;> rfl
  | some d =>
    simp only [History.parseIn, Option.bind_some]
    by_cases unnamed : location.last = []
    · rw [if_pos unnamed, if_pos unnamed]
      rfl
    · rw [if_neg unnamed, if_neg unnamed, History.lookup]
      cases tree.history.findFile d location.last location.slash with
      | some id => rfl
      | none => cases tree.history.folderNamed d location.last <;> rfl

omit start within in
theorem redisGetFolderName_run {id : Nat} (linked : tree.history.Linked id) :
    (redisGetFolderName id).run execute tree.store = (.ok (tree.history.name id), tree.store) :=
  vfsGetFolderName_run (by rw [tree.linked_held linked]; rfl)

theorem stat_folder_run :
    (do
      let folderId ← getFolderIdFromPath { cwd := '/' :: cwd } ('/' :: body)
      if folderId = -1 then
        return { id := -1, exists_ := false, type := none, parentId := none, name := [] }
      else
        let name ← redisGetFolderName folderId
        return { id := folderId, exists_ := true, type := some .DIR_ITEM_FOLDER, parentId := none, name }
      : Prog DirItemInfo).run execute tree.store =
        (.ok (tree.history.dirItemInfo
          ((tree.history.walk 0 (components body)).map fun id => (.folder, id))), tree.store) := by
  have folderRun := tree.store.folderId_run { cwd := '/' :: cwd } ('/' :: body)
  rw [@folderId_linked tree cwd body start within.walk] at folderRun
  rw [Program.run_bind_ok execute folderRun]
  cases walk : tree.history.walk 0 (components body) with
  | none => rfl
  | some id =>
    have known : asId (some id) ≠ -1 := by simp [asId_eq_neg_one]
    rw [if_neg known]
    exact Program.run_bind_ok execute (tree.redisGetFolderName_run (History.Linked.walk .root walk)) _

theorem stat_run :
    (stat { cwd := '/' :: cwd } ('/' :: body)).run execute tree.store =
      (.ok (tree.history.dirItemInfo (tree.history.objectAt body)), tree.store) := by
  have folderRun := tree.stat_folder_run start within
  unfold stat History.objectAt
  cases located : locate ('/' :: body) with
  | none =>
    obtain rfl := locate_root located
    exact folderRun
  | some location =>
    rw [Location.components located] at folderRun
    have last : ('/' :: body).getLast? = some '/' ↔ location.slash = true := by
      rw [(locate_some located).1]
      exact Location.getLast?
    cases slash : location.slash with
    | true =>
      rw [if_neg (by simp [last, slash])]
      simp only [slash, if_true]
      exact folderRun
    | false =>
      have named := Location.named_of_open slash
      have fileRun := tree.getFileId_absolute_run start within located
      rw [if_neg named] at fileRun
      rw [if_pos (by simp [last, slash]), Program.run_bind_ok execute fileRun]
      simp only [slash, Bool.false_eq_true, if_false]
      cases found : tree.history.fileAt location with
      | none =>
        rw [if_neg (by simp [asId])]
        exact folderRun
      | some id =>
        have known : asId (some id) ≠ -1 := by simp [asId_eq_neg_one]
        obtain ⟨d, _, inside⟩ := Option.bind_eq_some_iff.mp found
        rw [if_pos known]
        exact Program.run_bind_ok execute (tree.file_name_run (History.mem_of_findFile inside).1) _

end Absolute

theorem folder_at_iff {body : Text} {location : Location} {id : Nat}
    (located : locate ('/' :: body) = some location) :
    tree.history.objectAt body = some (.folder, id) ↔
      tree.history.walk 0 (location.folders ++ [location.last]) = some id := by
  simp only [History.objectAt, located]
  constructor
  · intro found
    split at found
    · simp at found
    · simpa using found
  · intro walk
    have noFile : (if location.slash then none else tree.history.fileAt location) = none := by
      split
      · rfl
      next =>
        rw [History.walk_concat] at walk
        obtain ⟨d, folders, entered⟩ := Option.bind_eq_some_iff.mp walk
        rw [History.fileAt, folders, Option.bind_some]
        exact History.findFile_none_of_slash _ (History.enter_eq_some.mp entered).1
    rw [noFile, walk]
    rfl

theorem file_at_iff {body : Text} {location : Location} {id : Nat}
    (located : locate ('/' :: body) = some location) :
    tree.history.objectAt body = some (.file, id) ↔ location.slash = false ∧
      ∃ d, tree.history.walk 0 location.folders = some d ∧
        tree.history.findFile d location.last false = some id := by
  simp only [History.objectAt, located]
  cases slash : location.slash with
  | true => cases tree.history.walk 0 (location.folders ++ [location.last]) <;> simp
  | false =>
    simp only [Bool.false_eq_true, if_false, true_and, History.fileAt, slash]
    cases found : (tree.history.walk 0 location.folders).bind fun d =>
        tree.history.findFile d location.last false with
    | none =>
      have absent := Option.bind_eq_none_iff.mp found
      cases tree.history.walk 0 (location.folders ++ [location.last]) <;> simp_all
    | some id' =>
      obtain ⟨d, folders, inside⟩ := Option.bind_eq_some_iff.mp found
      simp [folders, inside]

end Tree

end RedisVfs
