import RedisVfs.Refinement.Building
import RedisVfs.Refinement.Viewing
import RedisVfs.Tree.Climbing

set_option autoImplicit false

namespace RedisVfs

open CString

-- The stored parents of a folder lead strictly down to 0, past info hashes with these names.
inductive Store.Descends (store : Store) : Int → List Text → Prop
  | root : Descends store 0 []
  | child {f d : Int} {name : Text} {names : List Text} (parent : store.folderParent f = some d)
      (older : d < f) (named : store.folderName f = some name) (above : Descends store d names) :
      Descends store f (names ++ [name])

-- The loop up to the root ends after as many turns as there are names on the way, and spells them.
def Store.SpellsAncestors (store : Store) (f : Int) : Prop :=
  ∃ names, store.Descends f names ∧ ∀ fuel,
    (getAbsolutePathFromFolderId fuel f).run execute store =
      (if fuel < names.length then .error .outOfFuel else .ok (names.flatMap ('/' :: ·) ++ ['/']), store)

namespace Tree

variable (tree : Tree)

theorem descends_names {id : Nat} (linked : tree.history.Linked id) :
    tree.store.Descends id (tree.history.names id) := by
  induction id, linked using tree.chain_induction with
  | root =>
    rw [History.names_root]
    exact .root
  | child id linked nonroot above =>
    rw [tree.names_child linked nonroot]
    have older := (tree.parent_lists linked nonroot).2
    apply Store.Descends.child (tree.folderParent_store linked) _
      (tree.folderName_store (tree.linked_folder linked)) above
    exact_mod_cast older

theorem absolutePath_run (fuel : Nat) {id : Nat} (linked : tree.history.Linked id) :
    (getAbsolutePathFromFolderId fuel id).run execute tree.store =
      (if fuel < (tree.history.names id).length then .error .outOfFuel
        else .ok ((tree.history.names id).flatMap ('/' :: ·) ++ ['/']), tree.store) := by
  rw [tree.getAbsolutePath_run fuel linked, tree.climb_turns fuel linked]
  by_cases short : fuel < (tree.history.names id).length <;> simp [short]

theorem descends_linked {f : Int} {names : List Text} (descends : tree.store.Descends f names) :
    ∃ id : Nat, f = id ∧ tree.history.Linked id := by
  induction descends with
  | root => exact ⟨0, rfl, .root⟩
  | @child f d name names parent older _ _ ih =>
    obtain ⟨above, rfl, linked⟩ := ih
    obtain ⟨id, rfl⟩ := Int.eq_ofNat_of_zero_le (show 0 ≤ f by omega)
    refine ⟨id, rfl, ?_⟩
    unfold Store.folderParent at parent
    obtain ⟨value, held, read⟩ := Option.map_eq_some_iff.mp parent
    have nonroot : id ≠ 0 := by omega
    have present : tree.store.hashes (.folderInfo (id : Int)) ≠ [] := fun empty => by simp [empty] at held
    obtain ⟨number, entry, found, key⟩ := History.store_info_entry (by simpa using nonroot) present
    have folder : entry.kind = .folder ∧ number = id := by
      cases kind : entry.kind with
      | file => simp [kind, infoKey] at key
      | folder => exact ⟨rfl, by simpa [kind, infoKey, eq_comm] using key⟩
    obtain ⟨kind, rfl⟩ := folder
    obtain ⟨rfl, _⟩ := tree.above_held held
    have bound := linked.le
    have bounded := tree.bounded
    have same : tree.history.parent number = above := by
      rw [strtol_decimal] at read
      unfold clampLong LONG_MIN LONG_MAX at *
      omega
    rw [History.parent, Journal.parent_of_entry found] at same
    exact .child found kind (same ▸ linked)

theorem spellsAncestors_iff {f : Int} : tree.store.SpellsAncestors f ↔ tree.store.FolderReached f := by
  rw [tree.reached_iff]
  constructor
  · rintro ⟨names, descends, -⟩
    exact tree.descends_linked descends
  · rintro ⟨id, rfl, linked⟩
    exact ⟨_, tree.descends_names linked, fun fuel => tree.absolutePath_run fuel linked⟩

end Tree

-- The climb spells the ancestors of the folders that the lists tie to the root, and of no other number;
-- an absolute path leads to one of them as long as no number on its way is cut.
theorem ancestors_spelled {state : State} (reached : Reachable state) {userCwd f : Int} {path : Text}
    (absolute : path.head? = some '/') (known : f ≠ -1)
    (ran : (vfsGetDirIdFromPath userCwd path path.length).run execute state.store =
      (.ok f, state.store)) :
    (state.store.SpellsAncestors f ↔ state.store.FolderReached f) ∧
      (state.store.view.Within (· < 2 ^ 31) 0 (pathWords path) → state.store.FolderReached f) := by
  obtain ⟨tree, cwd, holds⟩ := reached.represented
  rw [holds.store] at ran ⊢
  refine ⟨tree.spellsAncestors_iff, fun within => tree.reached_iff.mpr ?_⟩
  have start : origin userCwd path = ((0 : Nat) : Int) := by simp [origin, absolute]
  rw [tree.dirId_any_run, start, tree.wander_linked .root (tree.within_root.mp within)] at ran
  have answer : asId (tree.history.walk 0 (pathWords path)) = f := by simpa using ran
  cases walk : tree.history.walk 0 (pathWords path) with
  | none =>
    rw [walk] at answer
    exact absurd answer.symm known
  | some id =>
    rw [walk] at answer
    exact ⟨id, answer.symm, History.Linked.walk .root walk⟩

theorem ancestors_spelled_nested : ∃ state : State, state.store.folders 1 = [2] ∧
    state.store.SpellsAncestors 2 := by
  obtain ⟨tree, history, reached⟩ := reachable_folders
  have small : tree.Small := by rw [Tree.Small, history]; decide
  have walk : tree.history.walk 0 (pathWords "/a/./b/".toList) = some 2 := by rw [history]; decide
  have within := small.within .root (pathWords "/a/./b/".toList)
  have run := tree.dirId_any_run 5 "/a/./b/".toList
  rw [show origin 5 "/a/./b/".toList = ((0 : Nat) : Int) from rfl, tree.wander_linked .root within, walk] at run
  obtain ⟨spells, there⟩ := ancestors_spelled reached rfl (by decide) run
  refine ⟨_, ?_, spells.mpr (there (tree.within_root.mpr within))⟩
  rw [Tree.store, history]
  decide

-- The folder "/b" is created after 2^31 - 1 files, and its number does not fit an int: "/b/" leads to
-- -2^31, which no folder has.
theorem ancestors_spelled_cut : ∃ state : State, Reachable state ∧
    (vfsGetDirIdFromPath 0 "/b/".toList 3).run execute state.store = (.ok (-2 ^ 31), state.store) ∧
      ¬ state.store.SpellsAncestors (-2 ^ 31) := by
  obtain ⟨tree, history, reached⟩ := @reachedBy_files (fun _ _ => True) (fun _ => trivial) (2 ^ 31 - 1) (by decide)
  have small : tree.Small := by rw [Tree.Small, history, History.length_files]; decide
  obtain ⟨tree', grown, reached'⟩ := ReachedBy.creates small reached .folder
    (history ▸ @History.placeOfPath_files (2 ^ 31 - 1) "b".toList _ rfl rfl (by decide)) trivial
  rw [history] at grown
  have noFile : tree'.history.findFile 0 "b".toList true = none := by
    rw [History.findFile_eq_none]
    intro id member
    obtain ⟨entry, found, kind, _⟩ := Journal.mem_children.mp member
    have shape : entry = ⟨.file, 0, "f".toList⟩ := by
      rw [grown, Journal.entryAt] at found
      split at found
      · cases found
        exact absurd kind (by decide)
      · exact History.entryAt_files found
    rw [History.name, Journal.name_of_entry found, shape]
    decide
  have folder : tree'.history.findFolder 0 "b".toList = some (2 ^ 31) := by
    have listed : tree'.history.childFolders 0 = [2 ^ 31] := by
      rw [grown, History.childFolders, Journal.children, if_pos ⟨rfl, rfl⟩, History.length_files]
      exact congrArg _ (History.childFolders_files _ _)
    have name : tree'.history.name (2 ^ 31) = "b".toList := by
      have newest := Journal.entryAt_newest (⟨.folder, 0, "b".toList⟩ : Journal.Entry Kind Text)
        (History.files (2 ^ 31 - 1))
      rw [History.length_files] at newest
      rw [History.name, grown]
      exact Journal.name_of_entry newest
    rw [History.findFolder, listed, List.find?_cons, name]
    rfl
  refine ⟨_, reached', ?_, fun spells => ?_⟩
  · have run := tree'.dirId_any_run 0 "/b/".toList
    rw [show origin 0 "/b/".toList = 0 from rfl, show pathWords "/b/".toList = ["b".toList] by decide] at run
    simp only [Tree.wander, show unsigned 0 = 0 from rfl, noFile, Tree.folderFrom,
      if_neg (show "b".toList ≠ ['.'] by decide), if_neg (show "b".toList ≠ ['.', '.'] by decide), folder] at run
    exact run
  · obtain ⟨id, negative, _⟩ := tree'.reached_iff.mp (tree'.spellsAncestors_iff.mp spells)
    omega

end RedisVfs
