import RedisVfs.Refinement.Building
import RedisVfs.Refinement.Viewing
import RedisVfs.Tree.Climbing

set_option autoImplicit false

namespace RedisVfs

open CString Directory

namespace Store

def RoundTrips (store : Store) (f : Int) : Prop :=
  ∃ fuel text, (getAbsolutePathFromFolderId fuel f).run execute store = (.ok text, store) ∧
    (getFolderIdFromAbsolutePath text).run execute store = (.ok f, store)

-- Every name from the root down to the folder is a legal component that no file shadows.
def PlainChain (store : Store) (f : Int) : Prop := store.view.Chain 0 (PlainIn store.view) f

def UndottedChain (store : Store) (f : Int) : Prop := store.view.Chain 0 (fun _ => Undotted) f

end Store

namespace Tree

variable (tree : Tree)

theorem getFolderId_root_run (path : Text) :
    (getFolderIdFromAbsolutePath path).run execute tree.store =
      (tree.wander 0 (components (path.drop (pathLead path).length)), tree.store) := by
  cases path with
  | nil => exact tree.getDirId_absolute_run ROOT_FOLDER_ID []
  | cons c body =>
    have run := tree.getDirId_any_run ROOT_FOLDER_ID (List.cons_ne_nil c body)
    rwa [show origin ROOT_FOLDER_ID (c :: body) = 0 by simp [origin, ROOT_FOLDER_ID]] at run

theorem climbed_components {id fuel : Nat} (linked : tree.history.Linked id) {text : Text}
    (climbed : tree.history.climb fuel id [] = some text) :
    components (text.drop (pathLead text).length) = (tree.history.names id).flatMap pieces := by
  rw [History.climb_agree climbed (tree.climb_path linked), ← components_names]
  rfl

theorem roundTrips_iff {id : Nat} (linked : tree.history.Linked id)
    (within : tree.history.view.Within (· < 2 ^ 31) 0 ((tree.history.names id).flatMap pieces)) :
    tree.store.RoundTrips id ↔ tree.history.ReadsBack id := by
  have back {fuel : Nat} {text : Text} (climbed : tree.history.climb fuel id [] = some text) :
      (getFolderIdFromAbsolutePath text).run execute tree.store = (.ok (id : Int), tree.store) ↔
        tree.history.ReadsBack id := by
    rw [tree.getFolderId_root_run, tree.climbed_components linked climbed, tree.wander_root within]
    simp [History.ReadsBack, asId_eq_natCast]
  constructor
  · rintro ⟨fuel, text, climbRun, backRun⟩
    rw [tree.getAbsolutePath_run fuel linked] at climbRun
    cases climbed : tree.history.climb fuel id [] with
    | none => simp [climbed] at climbRun
    | some text' =>
      obtain rfl : text' = text := by simpa [climbed] using climbRun
      exact (back climbed).mp backRun
  · intro reads
    have climbed := tree.climb_path linked
    refine ⟨depth tree.history id, _, ?_, (back climbed).mpr reads⟩
    rw [tree.getAbsolutePath_run _ linked, climbed]

theorem plainChain_iff {id : Nat} (linked : tree.history.Linked id) :
    tree.store.PlainChain id ↔ tree.history.view.Chain 0 (PlainIn tree.history.view) id :=
  tree.view_embeds.chain_iff Nat.cast_injective
    (fun _ name inside => and_congr_right fun _ => (tree.view_embeds.shadowed_iff inside name).not) linked

theorem undottedChain_iff {id : Nat} (linked : tree.history.Linked id) :
    tree.store.UndottedChain id ↔ tree.history.view.Chain 0 (fun _ => Undotted) id :=
  tree.view_embeds.chain_iff Nat.cast_injective (fun _ _ _ => Iff.rfl) linked

end Tree

-- A folder that a path leads to is led back to by its own path if its chain is plain, and, where no
-- name on the chain is dotted, only then. A change of directory into it comes back to it likewise.
theorem cwd_round_trip {state : State} (reached : Reachable state) :
    (∀ path f, f ≠ -1 →
      (getFolderIdFromAbsolutePath path).run execute state.store = (.ok f, state.store) →
      state.store.view.Within (· < 2 ^ 31) 0 (components (path.drop (pathLead path).length)) →
        (state.store.PlainChain f → state.store.RoundTrips f) ∧
          (state.store.UndottedChain f →
            (∀ fuel text, (getAbsolutePathFromFolderId fuel f).run execute state.store = (.ok text, state.store) →
              state.store.view.Within (· < 2 ^ 31) 0 (components (text.drop (pathLead text).length))) →
                (state.store.RoundTrips f ↔ state.store.PlainChain f))) ∧
      ∀ path fuel context store, (cd fuel state.context path).run execute state.store =
          (.ok (true, context), store) → store = state.store ∧
        ∃ formattedPath f, (formatToValidPath fuel state.context path).run execute state.store =
            (.ok formattedPath, state.store) ∧
          (getFolderIdFromPath state.context formattedPath).run execute state.store =
            (.ok f, state.store) ∧ f ≠ -1 ∧
          (∃ root, (getFolderIdFromAbsolutePath root).run execute state.store = (.ok f, state.store)) ∧
          ((getCwdId context).run execute state.store = (.ok f, state.store) ↔
            state.store.RoundTrips f) := by
  obtain ⟨tree, cwd, holds⟩ := reached.represented
  obtain rfl := holds.state_eq
  refine ⟨fun path f known ran within => ?_, fun path fuel context store ran => ?_⟩
  · have within := tree.within_root.mp within
    rw [tree.getFolderId_root_run, tree.wander_root within] at ran
    cases walk : tree.history.walk 0 (components (path.drop (pathLead path).length)) with
    | none => simp [walk, asId, known.symm] at ran
    | some id =>
      obtain rfl : (id : Int) = f := by simpa [walk, asId] using ran
      have linked : tree.history.Linked id := History.Linked.walk .root walk
      have canonical : tree.history.Canonical id := History.Canonical.walk .root walk
      have small : id < 2 ^ 31 := within.led (by decide) ((History.view_leads ..).trans walk)
      rw [tree.plainChain_iff linked, tree.undottedChain_iff linked]
      have enough (chain : tree.history.view.Chain 0 (PlainIn tree.history.view) id) :
          tree.store.RoundTrips id :=
        (tree.roundTrips_iff linked (tree.within_of_plain linked canonical chain small)).mpr
          (tree.readsBack_of_plain linked canonical chain)
      refine ⟨enough, fun undotted again => ⟨fun trips => ?_, enough⟩⟩
      have climbed := tree.climb_path linked
      have text := (tree.getAbsolutePath_run (Tree.depth tree.history id) linked).trans (by rw [climbed])
      have within' := tree.within_root.mp (again _ _ text)
      rw [tree.climbed_components linked climbed] at within'
      exact tree.plain_of_readsBack linked undotted ((tree.roundTrips_iff linked within').mp trips)
  · obtain ⟨rfl, changed⟩ := Store.cd_true_iff.mp ran
    obtain ⟨formattedPath, f, format, folder, known, climb⟩ := Store.changing_iff.mp changed
    obtain ⟨body, rfl⟩ := Store.format_absolute format
    refine ⟨rfl, '/' :: body, f, ?_, ?_, known, ⟨'/' :: body, ?_⟩, ?_⟩
    · rw [tree.store.format_run, format]
    · rw [tree.store.folderId_run, folder]
    · obtain ⟨d, _, path⟩ := Store.folderId_ok.mp folder
      exact (tree.getFolderId_root_run _).trans
        (Prod.ext ((tree.pathId_tree d body).symm.trans path) rfl)
    · change (getFolderIdFromAbsolutePath context.cwd).run execute tree.store = _ ↔ _
      constructor
      · intro back
        exact ⟨fuel, context.cwd, by rw [tree.store.getAbsolutePath_run, climb], back⟩
      · rintro ⟨fuel', text, climbRun, back⟩
        rw [tree.store.getAbsolutePath_run] at climbRun
        obtain rfl := Store.climb_agree climb (congrArg Prod.fst climbRun)
        exact back

theorem cwd_round_trip_nested : ∃ state : State, Reachable state ∧
    state.store.folders 0 = [1] ∧ state.store.folders 1 = [2] ∧ state.store.RoundTrips 2 := by
  obtain ⟨tree, history, reached⟩ := reachable_folders
  have linked : tree.history.Linked 2 := by
    have walk : tree.history.walk 0 ["a".toList, "b".toList] = some 2 := by rw [history]; decide
    exact History.Linked.walk .root walk
  have plain : tree.store.PlainChain ((2 : Nat) : Int) := by
    rw [tree.plainChain_iff linked, history]
    have inner : PlainIn (History.view [⟨.folder, 1, "b".toList⟩, ⟨.folder, 0, "a".toList⟩]) 1
        "b".toList := ⟨by decide, by unfold View.Shadowed; decide⟩
    have outer : PlainIn (History.view [⟨.folder, 1, "b".toList⟩, ⟨.folder, 0, "a".toList⟩]) 0
        "a".toList := ⟨by decide, by unfold View.Shadowed; decide⟩
    exact .child (by decide) rfl rfl inner (.child (by decide) rfl rfl outer .root)
  have small : tree.Small := by rw [Tree.Small, history]; decide
  have resolved : (getFolderIdFromAbsolutePath "/a/b".toList).run execute tree.store =
      (.ok ((2 : Nat) : Int), tree.store) := by
    apply (@Tree.getDirIdFromPath_absolute tree ROOT_FOLDER_ID "a/b".toList (small.within .root _)).trans
    rw [history]
    rfl
  refine ⟨_, reached, ?_, ?_, ((cwd_round_trip reached).1 "/a/b".toList 2 (by decide) resolved
    (tree.within_root.mpr (small.within .root _))).1 plain⟩
  · rw [Tree.store, history]; decide
  · rw [Tree.store, history]; decide

-- cd("/a") goes into the folder "a/", whose path "/a//" leads nowhere.
theorem cwd_round_trip_closing_slash : ∃ state : State,
    ReachedBy (fun _ call => call = .mkdir "/a/".toList) state ∧
      ∃ context, (∃ fuel, (cd fuel state.context "/a".toList).run execute state.store =
          (.ok (true, context), state.store)) ∧
        (getFolderIdFromPath state.context "/a".toList).run execute state.store =
          (.ok 1, state.store) ∧
        (getCwdId context).run execute state.store = (.ok (-1), state.store) := by
  obtain ⟨tree, made, reached⟩ := @reachedBy_creating (fun _ call => call = .mkdir "/a/".toList)
    [(.folder, "a/".toList)] (by simp [Kind.call]) (by decide)
  have history : tree.history = [⟨.folder, 0, "a/".toList⟩] := by rw [made]; decide
  have format : tree.history.format 1 [] "/a".toList = .ok "/a".toList := rfl
  have walk : tree.history.walk 0 (components "a".toList) = some 1 := by rw [history]; decide
  have climb : tree.history.climb 1 1 [] = some "/a//".toList := by rw [history]; decide
  have back : tree.history.walk 0 (components "a//".toList) = none := by rw [history]; decide
  have small : tree.Small := by rw [Tree.Small, history]; decide
  have uncut (words : List Text) : tree.history.view.Within (· < 2 ^ 31) 0 words := small.within .root words
  have folder : tree.store.folderId { cwd := ['/'] } "/a".toList = .ok 1 :=
    (@Tree.folderId_linked tree [] "a".toList (uncut _) (uncut _)).trans (by rw [walk]; rfl)
  have linked : tree.history.Linked 1 := History.Linked.walk .root walk
  refine ⟨_, reached, { cwd := "/a//".toList }, ⟨1, ?_⟩, ?_, ?_⟩
  · exact Store.cd_true_iff.mpr ⟨rfl, Store.changing_iff.mpr
      ⟨_, 1, tree.store.format_bare 1 _ "a".toList, folder, by decide, (tree.climb_iff linked).mpr climb⟩⟩
  · rw [tree.store.folderId_run, folder]
  · have lost : tree.store.cwdId { cwd := "/a//".toList } = .ok (-1) :=
      (@Tree.cwdId_linked tree "a//".toList (uncut _)).trans (by rw [back]; rfl)
    rw [tree.store.cwdId_run, lost]

end RedisVfs
