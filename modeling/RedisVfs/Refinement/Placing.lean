import RedisVfs.Refinement.Creating
import RedisVfs.Refinement.Ranging

set_option autoImplicit false

namespace RedisVfs

open CString

namespace History

def format (history : History) (fuel : Nat) (cwd : Text) (path : Text) : Except Fault Text :=
  if path.length = 0 then
    .error (.thrown ("Could not get parent of invalid path: ".toList ++ path ++ ['\n']))
  else if path.head? = some '/' then .ok path
  else
    match history.walk 0 (components cwd) with
    | none => .error (.thrown "failed to get left side of expression".toList)
    | some d =>
        match history.climb fuel d [] with
        | none => .error .outOfFuel
        | some left => .ok (left ++ removeAnyPathPrefix path)

@[simp] theorem format_bare (history : History) (fuel : Nat) (cwd body : Text) :
    history.format fuel cwd ('/' :: body) = .ok ('/' :: body) := by
  simp [format]

end History

namespace Tree

variable (tree : Tree)

theorem upward_linked {id : Nat} (linked : tree.history.Linked id) :
    tree.store.upward id = .ok (tree.history.name id, (tree.history.parent id : Int)) := by
  have held := tree.linked_held linked
  have name : (tree.store.hashes (.folderInfo (unsigned id))).lookup .name =
      some (quoted (tree.history.name id)) := by rw [held]; rfl
  have parent : (tree.store.hashes (.folderInfo (unsigned id))).lookup .parent =
      some (decimal (tree.history.parent id)) := by rw [held]; rfl
  rw [Store.upward, name, parent]
  simp [tree.strtol_number linked.parent.le]

theorem climb_linked (fuel : Nat) {id : Nat} (linked : tree.history.Linked id) (output : Text) :
    tree.store.climb fuel id output =
      match tree.history.climb fuel id output with
      | some text => .ok text
      | none => .error .outOfFuel := by
  induction fuel generalizing id output with
  | zero =>
    unfold Store.climb History.climb
    by_cases root : id = 0 <;> simp [root]
  | succ fuel ih =>
    unfold Store.climb History.climb
    by_cases root : id = 0
    · simp [root]
    · have nonroot : ¬ (id : Int) = 0 := by omega
      rw [if_neg nonroot, if_neg root]
      simp only [tree.upward_linked linked]
      exact ih linked.parent _

theorem climb_iff {fuel id : Nat} (linked : tree.history.Linked id) {text : Text} :
    tree.store.climb fuel id [] = .ok text ↔ tree.history.climb fuel id [] = some text := by
  rw [tree.climb_linked fuel linked]
  cases tree.history.climb fuel id [] <;> simp

theorem getAbsolutePath_run (fuel : Nat) {id : Nat} (linked : tree.history.Linked id) :
    (getAbsolutePathFromFolderId fuel id).run execute tree.store =
      (match tree.history.climb fuel id [] with
        | some text => .ok text
        | none => .error .outOfFuel, tree.store) := by
  rw [tree.store.getAbsolutePath_run, tree.climb_linked fuel linked]

theorem wander_root {words : List Text} (within : tree.history.view.Within (· < 2 ^ 31) 0 words) :
    tree.wander 0 words = .ok (asId (tree.history.walk 0 words)) :=
  tree.wander_linked .root within

theorem cwdId_tree (cwd : Text) :
    tree.store.cwdId { cwd := '/' :: cwd } = tree.wander 0 (components cwd) :=
  congrArg Prod.fst (tree.getDirId_absolute_run ROOT_FOLDER_ID cwd)

theorem pathId_tree (d : Int) (body : Text) :
    tree.store.pathId d ('/' :: body) = tree.wander 0 (components body) :=
  congrArg Prod.fst (tree.getDirId_absolute_run d body)

theorem parsed_tree (d : Int) (body : Text) :
    tree.store.parsed d ('/' :: body) = tree.parseFrom 0 ('/' :: body) := by
  have run := tree.parsePath_any_run initVfsPathParserState (List.cons_ne_nil '/' body) d
  rw [show origin d ('/' :: body) = 0 by simp [origin]] at run
  exact congrArg Prod.fst run

theorem cwdId_linked {cwd : Text} (within : tree.history.view.Within (· < 2 ^ 31) 0 (components cwd)) :
    tree.store.cwdId { cwd := '/' :: cwd } = .ok (asId (tree.history.walk 0 (components cwd))) := by
  rw [tree.cwdId_tree, tree.wander_root within]

theorem folderId_linked {cwd body : Text}
    (within : tree.history.view.Within (· < 2 ^ 31) 0 (components cwd))
    (within' : tree.history.view.Within (· < 2 ^ 31) 0 (components body)) :
    tree.store.folderId { cwd := '/' :: cwd } ('/' :: body) =
      .ok (asId (tree.history.walk 0 (components body))) := by
  rw [Store.folderId, tree.cwdId_linked within]
  exact (tree.pathId_tree _ body).trans (tree.wander_root within')

theorem format_linked (fuel : Nat) {cwd : Text}
    (within : tree.history.view.Within (· < 2 ^ 31) 0 (components cwd)) (path : Text) :
    tree.store.format fuel { cwd := '/' :: cwd } path = tree.history.format fuel cwd path := by
  unfold Store.format History.format
  split
  · rfl
  · split
    · rfl
    · rw [tree.folderId_linked within within]
      cases walk : tree.history.walk 0 (components cwd) with
      | none => rfl
      | some d =>
        have known : asId (some d) ≠ -1 := by simp [asId_eq_neg_one]
        simp only [asId, tree.climb_linked fuel (History.Linked.walk .root walk)]
        cases tree.history.climb fuel d [] <;> rfl

-- No folder on the way of a creation has a number that the parser cuts.
structure Uncut (tree : Tree) (cwd path : Text) : Prop where
  start : tree.history.view.Within (· < 2 ^ 31) 0 (components cwd)
  formatted : ∀ fuel formattedPath, tree.history.format fuel cwd path = .ok formattedPath →
    ParsesWithin tree.history.view (· < 2 ^ 31) 0 formattedPath

theorem Small.accepts {tree : Tree} (small : tree.Small) : tree.store.Accepts := by
  unfold Small at small
  rw [tree.accepts_iff]
  unfold LONG_MAX
  omega

theorem Small.uncut {tree : Tree} (small : tree.Small) (cwd path : Text) : tree.Uncut cwd path :=
  ⟨small.within .root _, fun _ _ _ => small.parsesWithin .root _⟩

theorem parse_place (body : Text) :
    (tree.history.parse 0 ('/' :: body)).1 = -1 ∧ tree.history.placeOfPath body = none ∨
      (tree.history.parse 0 ('/' :: body)).1 = 0 ∧
        tree.history.placeOfPath body =
          some (unsigned (tree.history.parse 0 ('/' :: body)).2.parentId,
            ('/' :: body).drop (tree.history.parse 0 ('/' :: body)).2.nameOffset) := by
  unfold History.parse History.placeOfPath
  cases located : locate ('/' :: body) with
  | none =>
    obtain rfl := locate_root located
    exact .inr ⟨rfl, rfl⟩
  | some location =>
    simp only [History.place]
    cases walk : tree.history.walk 0 location.folders with
    | none => exact .inl ⟨rfl, rfl⟩
    | some d =>
      have linked : tree.history.Linked d := History.Linked.walk .root walk
      have number := tree.number linked.le
      refine .inr ⟨rfl, ?_⟩
      rw [(locate_some located).1]
      simp only [History.parseIn]
      by_cases unnamed : location.last = []
      · have bare : trail location.slash = ['/'] := by rw [location.ends unnamed]; rfl
        rw [if_pos unnamed, if_pos unnamed, location.parserState_nameOffset, location.drop_offset,
          unnamed, bare]
        rfl
      · rw [if_neg unnamed, if_neg unnamed]
        cases look : tree.history.lookup d location.last location.slash with
        | none => simp [location.drop_offset, number]
        | some object =>
          obtain ⟨kind, id⟩ := object
          cases kind with
          | file => simp [location.drop_offset, number]
          | folder =>
            have above := tree.number (linked.lookup look).parent.le
            simpa [location.drop_offset] using above.symm

theorem parsed_linked (d : Int) {body : Text}
    (within : ParsesWithin tree.history.view (· < 2 ^ 31) 0 ('/' :: body)) :
    tree.store.parsed d ('/' :: body) = .ok (tree.history.parse 0 ('/' :: body)) := by
  rw [tree.parsed_tree]
  exact tree.parseFrom_linked .root within

end Tree

end RedisVfs
