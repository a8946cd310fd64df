import Mathlib.Data.List.Find
import RedisVfs.Refinement.Reading
import RedisVfs.Tree.Reference

set_option autoImplicit false

namespace RedisVfs

open CString Directory

theorem strncmpEq_word (literal word after : Text) :
    (word.length = literal.length ∧ strncmpEq literal (word ++ after) literal.length = true) ↔
      word = literal := by
  rw [strncmpEq_iff, List.take_length]
  constructor
  · rintro ⟨length, same⟩
    rw [← length, List.take_left] at same
    exact same.symm
  · rintro rfl
    exact ⟨rfl, List.take_left.symm⟩

theorem unsigned_sentinel : unsigned (-1) = nowhere := by decide

namespace Tree

variable (tree : Tree)

def above (d : Int) : Except Fault Int :=
  match (tree.store.hashes (.folderInfo (unsigned d))).lookup .parent with
  | some value => .ok (strtol value)
  | none => .error .nilReply

def folderFrom (d : Int) (word : Text) : Except Fault Int :=
  if word = ['.'] then .ok d
  else if word = ['.', '.'] then tree.above d
  else .ok (asId (tree.history.findFolder (unsigned d) word))

def wander : Int → List Text → Except Fault Int
  | d, [] => .ok d
  | d, word :: words =>
      match tree.history.findFile (unsigned d) word true with
      | some _ => .ok (-1)
      | none =>
          match tree.folderFrom d word with
          | .error fault => .error fault
          | .ok id => if implicitInt id = -1 then .ok (-1) else wander (implicitInt id) words

theorem above_run (d : Int) :
    (vfsGetDirParent d).run execute tree.store = (tree.above d, tree.store) := by
  unfold Tree.above
  cases held : (tree.store.hashes (.folderInfo (unsigned d))).lookup .parent with
  | some value => exact vfsGetDirParent_run held
  | none =>
    have nil : execute tree.store (.hget (.folderInfo (unsigned d)) .parent) = (.nil, tree.store) := by
      simp [execute, Redis.execute, held]
    rw [vfsGetDirParent, Program.run_bind_ok execute (run_redisCommand _ _), nil]
    rfl

theorem findFile_run (d : Int) {word after : Text} {slash : Bool}
    (free : Segments.Free '/' word) (follows : Follows slash after) :
    (vfsFindFileNameInDir d (word ++ after) word.length).run execute tree.store =
      (.ok (asId (tree.history.findFile (unsigned d) word slash)), tree.store) := by
  rw [vfsFindFileNameInDir, Program.run_bind_ok execute (run_redisCommand _ _)]
  have listed : (execute tree.store (.lrange (.folderFiles (unsigned d)))).1.elements =
      (tree.history.childFiles (unsigned d)).map decimal :=
    History.store_folderFiles tree.history (unsigned d)
  have same : (tree.history.childFiles (unsigned d)).reverse.find? (fun id =>
      strncmpEq (word ++ after) (tree.history.name id)
        (max word.length (tree.history.name id).length)) =
          tree.history.findFile (unsigned d) word slash := by
    apply List.find?_congr
    intro id member
    exact fileMatch_closed free follows (tree.child_closed (List.mem_reverse.mp member))
  rw [listed]
  refine (findFileLoop_run tree _ _ _ fun id member => member).trans ?_
  rw [same]
  cases tree.history.findFile (unsigned d) word slash <;> rfl

theorem findDir_run (d : Int) (word after : Text) :
    (vfsFindDirNameInDir d (word ++ after) word.length).run execute tree.store =
      (tree.folderFrom d word, tree.store) := by
  have dot := strncmpEq_word ['.'] word after
  have dots := strncmpEq_word ['.', '.'] word after
  simp only [List.length_cons, List.length_nil, Nat.zero_add, Nat.reduceAdd] at dot dots
  unfold vfsFindDirNameInDir folderFrom
  simp only [dot, dots]
  split
  · rfl
  · split
    · exact tree.above_run d
    · rw [Program.run_bind_ok execute (run_redisCommand _ _)]
      have listed : (execute tree.store (.lrange (.folderFolders (unsigned d)))).1.elements =
          (tree.history.childFolders (unsigned d)).map decimal :=
        History.store_folderFolders tree.history (unsigned d)
      rw [listed]
      refine (findDirLoop_run tree _ _ fun id member => member).trans ?_
      have same : (fun id => strncmpEq (word ++ after) (tree.history.name id) word.length) =
          fun id => word.isPrefixOf (tree.history.name id) := by
        funext id
        rw [Bool.eq_iff_iff, strncmpEq_prefix, List.isPrefixOf_iff_prefix]
      rw [same]
      rfl

theorem folderFrom_linked {d : Nat} (linked : tree.history.Linked d) (word : Text) :
    tree.folderFrom d word = .ok (asId (tree.history.folderNamed d word)) := by
  unfold folderFrom History.folderNamed
  rw [tree.number linked.le]
  split
  · rfl
  · split
    · exact congrArg Prod.fst ((tree.above_run d).symm.trans (tree.linked_parent_run linked))
    · rfl

def found (parserState : VfsPathParserState) : Option (Kind × Nat) → Int × VfsPathParserState
  | some (.file, id) => (0, { parserState with id := id, isFilePath := true, isDir := false })
  | some (.folder, id) => (0, { parserState with id := id, isFilePath := false, isDir := true })
  | none => (-1, parserState)

-- A lookup depends on the component and on whether a '/' closes it, not on what comes then.
theorem findObject_any_run (parserState : VfsPathParserState) (d : Int) {word after : Text}
    {slash : Bool} (free : Segments.Free '/' word) (follows : Follows slash after) :
    (vfsFindObjectInDir parserState d (word ++ after) word.length).run execute tree.store =
      (match tree.history.findFile (unsigned d) word slash with
        | some id => .ok (found parserState (some (.file, id)))
        | none =>
            match tree.folderFrom d word with
            | .error fault => .error fault
            | .ok id =>
                .ok (if implicitInt id = -1 then (-1, parserState)
                  else (0, { parserState with id := implicitInt id, isFilePath := false, isDir := true })),
        tree.store) := by
  rw [vfsFindObjectInDir, Program.run_bind_ok execute (tree.findFile_run d free follows)]
  cases tree.history.findFile (unsigned d) word slash with
  | some id =>
    have known : asId (some id) ≠ -1 := by simp [asId_eq_neg_one]
    rw [if_pos known]
    rfl
  | none =>
    have folderRun := tree.findDir_run d word after
    simp only [asId, ne_eq, not_true_eq_false, if_false]
    cases named : tree.folderFrom d word with
    | error fault =>
      rw [named] at folderRun
      exact Program.run_bind_error execute folderRun _
    | ok id =>
      rw [named] at folderRun
      rw [Program.run_bind_ok execute folderRun]
      by_cases missing : implicitInt id = -1 <;> simp [missing]

theorem implicitInt_asId {found : Option Nat} (small : ∀ id, found = some id → id < 2 ^ 31) :
    implicitInt (asId found) = asId found := by
  cases found with
  | none => rfl
  | some id =>
    have bound := small id rfl
    exact implicitInt_of_small (by simp only [asId]; omega) (by simp only [asId]; omega)

theorem getLengthOfNextName_closed {word : Text} (free : Segments.Free '/' word) (text : Text)
    (extra : Nat) :
    getLengthOfNextName (word ++ '/' :: text) (word.length + 1 + extra) = word.length := by
  induction word with
  | nil => simp [getLengthOfNextName, Nat.add_comm 1]
  | cons c word ih =>
    have here : c ≠ '/' := fun same => free (by simp [same])
    have later : Segments.Free '/' word := fun member => free (List.mem_cons_of_mem _ member)
    have shift : (c :: word).length + 1 + extra = word.length + 1 + extra + 1 := by simp; omega
    rw [shift, List.cons_append, getLengthOfNextName, if_neg here, ih later, List.length_cons]

theorem getLengthOfNextName_open {word : Text} (free : Segments.Free '/' word) (text : Text) :
    getLengthOfNextName (word ++ text) word.length = word.length := by
  induction word with
  | nil => simp [getLengthOfNextName]
  | cons c word ih =>
    have here : c ≠ '/' := fun same => free (by simp [same])
    have later : Segments.Free '/' word := fun member => free (List.mem_cons_of_mem _ member)
    rw [List.cons_append, List.length_cons, getLengthOfNextName, if_neg here, ih later]

-- The loop takes one closed word after another and stops at the open rest.
theorem walkLoop_nil (parserState : VfsPathParserState) (d : Int) {last : Text}
    (free : Segments.Free '/' last) (after : Text) :
    walkLoop parserState d (Segments.unite '/' [] ++ (last ++ after))
      ((Segments.unite '/' []).length + last.length) = pure d := by
  rw [walkLoop]
  simp [getLengthOfNextName_open free]

theorem walkLoop_cons (parserState : VfsPathParserState) (d : Int) {word : Text}
    (free : Segments.Free '/' word) (words : List Text) (last after : Text) :
    walkLoop parserState d (Segments.unite '/' (word :: words) ++ (last ++ after))
        ((Segments.unite '/' (word :: words)).length + last.length) =
      (vfsFindObjectInDir parserState d (word ++ '/' :: (Segments.unite '/' words ++ (last ++ after)))
          word.length >>= fun answer =>
        if answer.1 ≠ 0 ∨ answer.2.id = -1 ∨ answer.2.isDir = false then pure (-1)
        else walkLoop answer.2 answer.2.id (Segments.unite '/' words ++ (last ++ after))
          ((Segments.unite '/' words).length + last.length)) := by
  have shape : Segments.unite '/' (word :: words) ++ (last ++ after) =
      word ++ '/' :: (Segments.unite '/' words ++ (last ++ after)) := by simp
  have size : (Segments.unite '/' (word :: words)).length + last.length =
      word.length + 1 + ((Segments.unite '/' words).length + last.length) := by
    simp; omega
  have more : ¬ word.length + 1 + ((Segments.unite '/' words).length + last.length) ≤ word.length := by
    omega
  have skip : (word ++ '/' :: (Segments.unite '/' words ++ (last ++ after))).drop (word.length + 1) =
      Segments.unite '/' words ++ (last ++ after) := by
    rw [← List.drop_drop]; simp
  have rest : word.length + 1 + ((Segments.unite '/' words).length + last.length) -
      (word.length + 1) = (Segments.unite '/' words).length + last.length := by omega
  rw [walkLoop, shape, size, getLengthOfNextName_closed free]
  simp only [more, if_false, skip, rest]

theorem walkLoop_any_run (parserState : VfsPathParserState) (d : Int) {words : List Text} {last : Text}
    (free : ∀ word ∈ words, Segments.Free '/' word) (lastFree : Segments.Free '/' last) (after : Text) :
    (walkLoop parserState d (Segments.unite '/' words ++ (last ++ after))
        ((Segments.unite '/' words).length + last.length)).run execute tree.store =
      (tree.wander d words, tree.store) := by
  induction words generalizing d parserState with
  | nil =>
    rw [walkLoop_nil parserState d lastFree]
    rfl
  | cons word words ih =>
    have wordFree := free word (by simp)
    have follows : Follows true ('/' :: (Segments.unite '/' words ++ (last ++ after))) := ⟨_, rfl⟩
    have look := tree.findObject_any_run parserState d wordFree follows
    rw [walkLoop_cons parserState d wordFree]
    unfold wander
    cases file : tree.history.findFile (unsigned d) word true with
    | some id =>
      simp only [file] at look
      rw [Program.run_bind_ok execute look]
      simp [found]
    | none =>
      simp only [file] at look
      cases folder : tree.folderFrom d word with
      | error fault =>
        simp only [folder] at look
        exact Program.run_bind_error execute look _
      | ok id =>
        simp only [folder] at look
        rw [Program.run_bind_ok execute look]
        by_cases missing : implicitInt id = -1
        · simp [missing]
        · simp only [missing, ne_eq, not_true_eq_false, Bool.true_eq_false, or_self, if_false]
          exact ih _ (implicitInt id) fun other later => free other (by simp [later])

theorem wander_append (d : Int) {first : List Text} (second : List Text)
    (started : first = [] → d ≠ -1) :
    tree.wander d (first ++ second) =
      match tree.wander d first with
      | .error fault => .error fault
      | .ok r => if r = -1 then .ok (-1) else tree.wander r second := by
  induction first generalizing d with
  | nil => simp [wander, started rfl]
  | cons word words ih =>
    simp only [List.cons_append, wander]
    cases tree.history.findFile (unsigned d) word true with
    | some id => simp
    | none =>
      cases tree.folderFrom d word with
      | error fault => rfl
      | ok id =>
        by_cases missing : implicitInt id = -1
        · simp [missing]
        · simp only [missing, if_false]
          exact ih (implicitInt id) fun _ => missing

theorem wander_linked {d : Nat} (linked : tree.history.Linked d) {words : List Text}
    (within : tree.history.view.Within (· < 2 ^ 31) d words) :
    tree.wander d words = .ok (asId (tree.history.walk d words)) := by
  induction words generalizing d with
  | nil => rfl
  | cons word words ih =>
    have step := View.within_cons.mp within
    rw [History.view_enter] at step
    rw [wander, History.walk, tree.number linked.le, tree.folderFrom_linked linked]
    cases noFile : tree.history.findFile d word true with
    | some id => simp [History.enter, History.lookup, noFile]; rfl
    | none =>
      rw [History.enter_of_findFile noFile] at step ⊢
      have cut := implicitInt_asId fun id named => (step id named).1
      simp only [cut]
      cases named : tree.history.folderNamed d word with
      | none => rfl
      | some id =>
        have known : ((id : Nat) : Int) ≠ -1 := by omega
        simp only [asId, known, if_false]
        exact ih (linked.folderNamed named) (step id named).2

-- What is under the folder number -1 is called "/", as it is while every number fits an int.
def Bare (tree : Tree) : Prop :=
  ∀ kind, ∀ id ∈ Journal.children tree.history kind nowhere, tree.history.name id = ['/']

theorem Small.bare {tree : Tree} (small : tree.Small) : tree.Bare := by
  intro kind id member
  obtain ⟨entry, found, _, parent⟩ := Journal.mem_children.mp member
  rw [History.name, Journal.name_of_entry found]
  rcases small.entry found with lost | placed
  · exact lost.2
  · rw [parent] at placed
    exact absurd rfl (tree.linked_ne_nowhere placed.1)

theorem above_sentinel : tree.above (-1) = .error .nilReply := by
  have absent : tree.store.hashes (.folderInfo nowhere) = [] := by
    apply @History.store_info_none tree.history nowhere .folder (by decide)
    intro entry found
    have bound := (Journal.entryAt_le found).2
    have bounded := tree.bounded
    unfold nowhere LONG_MAX at *
    omega
  rw [above, unsigned_sentinel, absent]
  rfl

theorem wander_sentinel (bare : tree.Bare) {word : Text} (named : word ≠ []) (free : Segments.Free '/' word)
    (words : List Text) :
    tree.wander (-1) (word :: words) =
      if word = ['.', '.'] then .error .nilReply else .ok (-1) := by
  have slash : word ≠ ['/'] := by
    rintro rfl
    simp [Segments.Free] at free
  have noFile : tree.history.findFile nowhere word true = none := by
    apply History.findFile_eq_none.mpr
    intro id member
    rw [bare _ id member]
    simp [fileNamed, slash.symm, named]
  have noFolder : tree.history.findFolder nowhere word = none := by
    rw [History.findFolder, List.find?_eq_none]
    intro id member
    rw [bare _ id member, List.isPrefixOf_iff_prefix, List.prefix_cons_iff]
    simp [named, slash]
  have none : implicitInt (-1) = -1 := rfl
  rw [wander, unsigned_sentinel, noFile]
  by_cases dots : word = ['.', '.']
  · simp [folderFrom, dots, tree.above_sentinel]
  · by_cases dot : word = ['.']
    · simp [folderFrom, dot, none]
    · simp [folderFrom, dots, dot, unsigned_sentinel, noFolder, asId, none]

end Tree

end RedisVfs
