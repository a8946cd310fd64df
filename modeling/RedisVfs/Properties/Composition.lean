import RedisVfs.Refinement.Building

set_option autoImplicit false

namespace RedisVfs

open CString

theorem pathLead_append_closed {path : Text} (closed : path.getLast? = some '/') (after : Text) :
    pathLead (path ++ after) = pathLead path := by
  cases path with
  | nil => simp at closed
  | cons c path => rfl

theorem origin_append_closed {path : Text} (closed : path.getLast? = some '/') (after : Text) (d : Int) :
    origin d (path ++ after) = origin d path := by
  rw [origin_eq, origin_eq, pathLead_append_closed closed]

theorem pathWords_append {path after : Text} (closed : path.getLast? = some '/')
    (relative : after.head? ≠ some '/') : pathWords (path ++ after) = pathWords path ++ pathWords after := by
  have drop : (path ++ after).drop (pathLead path).length = path.drop (pathLead path).length ++ after := by
    apply List.drop_append_of_le_length
    have size := congrArg List.length (pathLead_append path)
    rw [List.length_append] at size
    omega
  have ends : Segments.rest '/' (path.drop (pathLead path).length) = [] := by
    rw [rest_drop_lead]
    exact ((getLast?_eq_slash path).mp closed).2
  have bare : pathLead after = [] := by simp [pathLead, relative, trail]
  rw [pathWords, pathLead_append_closed closed, drop, Segments.words_append ends]
  simp [pathWords, bare]

theorem pathWords_started {path : Text} (closed : path.getLast? = some '/') (d : Int)
    (empty : pathWords path = []) : origin d path ≠ -1 := by
  have parts := path_parts path
  rw [empty, ((getLast?_eq_slash path).mp closed).2, Segments.unite_nil, List.append_nil,
    List.append_nil] at parts
  rw [origin_eq]
  split
  next bare =>
    rw [bare] at parts
    simp [← parts] at closed
  next => decide

theorem Tree.composition (tree : Tree) (d : Int) {path after : Text} (closed : path.getLast? = some '/')
    (relative : after.head? ≠ some '/') :
    (vfsGetDirIdFromPath d (path ++ after) (path.length + after.length)).run execute tree.store =
      (do
        let r ← vfsGetDirIdFromPath d path path.length
        if r = -1 then return -1 else vfsGetDirIdFromPath r after after.length : Prog Int).run execute
          tree.store := by
  have whole := tree.dirId_any_run d (path ++ after)
  have first := tree.dirId_any_run d path
  rw [List.length_append, origin_append_closed closed, pathWords_append closed relative,
    tree.wander_append _ _ (pathWords_started closed d)] at whole
  rw [whole]
  cases walk : tree.wander (origin d path) (pathWords path) with
  | error fault =>
    rw [walk] at first
    exact (Program.run_bind_error execute first _).symm
  | ok r =>
    rw [walk] at first
    rw [Program.run_bind_ok execute first]
    by_cases missing : r = -1
    · simp [missing]
    · have start : origin r after = r := by simp [origin, relative]
      simp only [missing, if_false]
      rw [tree.dirId_any_run r after, start]

-- Reading on behind a closed path starts where that path led, from any number; and a lookup does not
-- see what follows the '/' behind its component.
theorem walk_composition {state : State} (reached : Reachable state) (d : Int) :
    (∀ path after : Text, path.getLast? = some '/' → after.head? ≠ some '/' →
        (vfsGetDirIdFromPath d (path ++ after) (path.length + after.length)).run execute state.store =
          (do
            let r ← vfsGetDirIdFromPath d path path.length
            if r = -1 then return -1 else vfsGetDirIdFromPath r after after.length : Prog Int).run execute
              state.store) ∧
      ∀ (parserState : VfsPathParserState) (word after after' : Text), Segments.Free '/' word →
        (vfsFindObjectInDir parserState d (word ++ '/' :: after) word.length).run execute state.store =
          (vfsFindObjectInDir parserState d (word ++ '/' :: after') word.length).run execute
            state.store := by
  obtain ⟨tree, cwd, holds⟩ := reached.represented
  rw [holds.store]
  constructor
  · intro path after closed relative
    exact tree.composition d closed relative
  · intro parserState word after after' free
    have follows (text : Text) : Follows true ('/' :: text) := ⟨text, rfl⟩
    rw [tree.findObject_any_run parserState d free (follows after),
      tree.findObject_any_run parserState d free (follows after')]

theorem walk_composition_nested : ∃ state : State,
    (vfsGetDirIdFromPath 0 "/a/".toList 3).run execute state.store = (.ok 1, state.store) ∧
      (vfsGetDirIdFromPath 0 "/a/b/".toList 5).run execute state.store =
        (vfsGetDirIdFromPath 1 "b/".toList 2).run execute state.store := by
  obtain ⟨tree, history, reached⟩ := reachable_folders
  have first : (vfsGetDirIdFromPath 0 "/a/".toList 3).run execute tree.store = (.ok 1, tree.store) := by
    have walk : tree.history.walk 0 (pathWords "/a/".toList) = some 1 := by rw [history]; decide
    have small : tree.Small := by simp [Tree.Small, history]
    have run := @Tree.dirId_run tree 0 _ "/a/".toList rfl .root (small.within .root _)
    rwa [walk] at run
  refine ⟨⟨tree.store, { cwd := ['/'] }⟩, first, ?_⟩
  have composed := (walk_composition reached 0).1 "/a/".toList "b/".toList (by decide) (by decide)
  exact composed.trans (Program.run_bind_ok execute first _)

end RedisVfs
