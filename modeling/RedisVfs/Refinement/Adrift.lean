import RedisVfs.Refinement.Readable

set_option autoImplicit false

namespace RedisVfs

open CString Directory

-- What is filed under the number -1, which stands for no folder: objects called "/", and nothing above.
structure Store.Adrift (store : Store) : Prop where
  folders : ∀ e ∈ store.folders (unsigned (-1)), 0 ≤ e ∧ e ≤ LONG_MAX ∧ store.folderName e = some ['/']
  files : ∀ e ∈ store.files (unsigned (-1)), 0 ≤ e ∧ e ≤ LONG_MAX ∧ store.fileName e = some ['/']
  above : (store.hashes (.folderInfo (unsigned (-1)))).lookup .parent = none

def Store.base (store : Store) (context : FsContext) (path : Text) : Int :=
  origin ((store.view.leads 0 (components (context.cwd.drop 1))).getD (-1)) path

def Store.folderAt (store : Store) (context : FsContext) (path : Text) : Except Fault Int :=
  if path.head? ≠ some '/' ∧ store.Lost context then
    if (components path).head? = some ['.', '.'] then .error .nilReply else .ok (-1)
  else
    .ok ((store.view.leads (store.base context path) (components (path.drop (pathLead path).length))).getD (-1))

def Store.fileAt (store : Store) (context : FsContext) (path : Text) : Int :=
  if path.head? ≠ some '/' ∧ store.Lost context then -1
  else
    let answer := store.parse (store.base context path) path
    if answer.1 = -1 then -1
    else if answer.2.isFilePath = false then -1
    else answer.2.id

def Store.statAt (store : Store) (context : FsContext) (path : Text) : Except Fault DirItemInfo :=
  let fileId := if path.getLast? ≠ some '/' then store.fileAt context path else -1
  match store.folderAt context path with
  | .error fault => .error fault
  | .ok folderId =>
      if fileId ≠ -1 then
        .ok { id := fileId, exists_ := true, type := some .DIR_ITEM_FILE, parentId := none,
              name := (store.fileName fileId).getD [] }
      else if folderId = -1 then
        .ok { id := -1, exists_ := false, type := none, parentId := none, name := [] }
      else
        .ok { id := folderId, exists_ := true, type := some .DIR_ITEM_FOLDER, parentId := none,
              name := (store.folderName folderId).getD [] }

def Store.Falls (store : Store) (context : FsContext) (path : Text) : Prop :=
  (path.head? ≠ some '/' ∧ store.Lost context) ∧ (components path).head? = some ['.', '.']

instance (store : Store) (context : FsContext) (path : Text) : Decidable (store.Falls context path) :=
  inferInstanceAs (Decidable (_ ∧ _))

theorem Store.folderAt_cases (store : Store) (context : FsContext) (path : Text) :
    store.Falls context path ∧ store.folderAt context path = .error .nilReply ∨
      ¬ store.Falls context path ∧ ∃ d, store.folderAt context path = .ok d := by
  unfold Store.Falls Store.folderAt
  split
  · next lost =>
    split
    · next up => exact .inl ⟨⟨lost, up⟩, rfl⟩
    · next other => exact .inr ⟨fun falls => other falls.2, _, rfl⟩
  · next based => exact .inr ⟨fun falls => based falls.1, _, rfl⟩

theorem Store.statAt_cases (store : Store) (context : FsContext) (path : Text) :
    store.Falls context path ∧ store.statAt context path = .error .nilReply ∨
      ¬ store.Falls context path ∧ ∃ info, store.statAt context path = .ok info := by
  unfold Store.statAt
  generalize (if path.getLast? ≠ some '/' then store.fileAt context path else -1) = fileId
  rcases store.folderAt_cases context path with ⟨falls, stops⟩ | ⟨stays, d, answer⟩
  · rw [stops]
    exact .inl ⟨falls, rfl⟩
  · rw [answer]
    refine .inr ⟨stays, ?_⟩
    simp only
    split
    · exact ⟨_, rfl⟩
    · split <;> exact ⟨_, rfl⟩

theorem closed_slash : Closed ['/'] := ⟨[], true, by simp [Segments.Free], rfl⟩

namespace Store.Adrift

variable {store : Store} (adrift : store.Adrift) {word : Text} (named : word ≠ [])
  (free : Segments.Free '/' word)

include adrift named free

theorem findFile_run {after : Text} {slash : Bool} (follows : Follows slash after) :
    (vfsFindFileNameInDir (-1) (word ++ after) word.length).run execute store = (.ok (-1), store) := by
  have names : ∀ element ∈ store.lists (.folderFiles (unsigned (-1))), ∃ name,
      (vfsGetFileName (strtol element)).run execute store = (.ok name, store) ∧
        store.fileName (strtol element) = some name := by
    intro element member
    obtain ⟨low, high, same⟩ := adrift.files _ (List.mem_map_of_mem member)
    exact ⟨_, fileName_run (unsigned_of_range low high) same, same⟩
  have loop := @findFileLoop_named store (word ++ after) word.length _ (-1) names
  have none : ((store.lists (.folderFiles (unsigned (-1)))).map strtol).reverse.find? (fun id =>
      (store.fileName id).any fun name =>
        strncmpEq (word ++ after) name (max word.length name.length)) = none := by
    rw [List.find?_eq_none]
    intro id member
    obtain ⟨-, -, same⟩ := adrift.files id (List.mem_reverse.mp member)
    have slash' : word ≠ ['/'] := by
      rintro rfl
      simp [Segments.Free] at free
    rw [same, Option.any_some, fileMatch_closed free follows closed_slash]
    simp [fileNamed, named, slash'.symm]
  rw [none] at loop
  rw [vfsFindFileNameInDir, Program.run_bind_ok execute (run_redisCommand _ _)]
  exact loop

theorem findDir_run (after : Text) :
    (vfsFindDirNameInDir (-1) (word ++ after) word.length).run execute store =
      (if word = ['.', '.'] then .error .nilReply else .ok (-1), store) := by
  have dot := strncmpEq_word ['.'] word after
  have dots := strncmpEq_word ['.', '.'] word after
  simp only [List.length_cons, List.length_nil, Nat.zero_add, Nat.reduceAdd] at dot dots
  unfold vfsFindDirNameInDir
  simp only [dot, dots]
  by_cases here : word = ['.']
  · simp [here]
  · rw [if_neg here]
    by_cases up : word = ['.', '.']
    · have nil : execute store (.hget (.folderInfo (unsigned (-1))) .parent) = (.nil, store) := by
        simp [execute, Redis.execute, adrift.above]
      rw [if_pos up, if_pos up, vfsGetDirParent, Program.run_bind_ok execute (run_redisCommand _ _), nil]
      rfl
    · have names : ∀ element ∈ store.lists (.folderFolders (unsigned (-1))), ∃ name,
          (vfsGetFolderName (strtol element)).run execute store = (.ok name, store) ∧
            store.folderName (strtol element) = some name := by
        intro element member
        obtain ⟨low, high, same⟩ := adrift.folders _ (List.mem_map_of_mem member)
        exact ⟨_, folderName_run (unsigned_of_range low high) same, same⟩
      have loop := @findDirLoop_named store (word ++ after) word.length _ names
      have none : ((store.lists (.folderFolders (unsigned (-1)))).map strtol).find? (fun id =>
          (store.folderName id).any (strncmpEq (word ++ after) · word.length)) = none := by
        rw [List.find?_eq_none]
        intro id member
        obtain ⟨-, -, same⟩ := adrift.folders id member
        have slash : word ≠ ['/'] := by
          rintro rfl
          simp [Segments.Free] at free
        rw [same, Option.any_some, strncmpEq_prefix, List.prefix_cons_iff]
        simp [named, slash]
      rw [none] at loop
      rw [if_neg up, if_neg up, Program.run_bind_ok execute (run_redisCommand _ _)]
      exact loop

theorem findObject_run (parserState : VfsPathParserState) {after : Text} {slash : Bool}
    (follows : Follows slash after) :
    (vfsFindObjectInDir parserState (-1) (word ++ after) word.length).run execute store =
      (if word = ['.', '.'] then .error .nilReply else .ok (-1, parserState), store) := by
  have look := adrift.findDir_run named free after
  rw [vfsFindObjectInDir, Program.run_bind_ok execute (adrift.findFile_run named free follows)]
  by_cases up : word = ['.', '.']
  · rw [if_pos up] at look ⊢
    exact Program.run_bind_error execute look _
  · rw [if_neg up] at look ⊢
    exact Program.run_bind_ok execute look _

omit named free in
theorem walkLoop_run (parserState : VfsPathParserState) {words : List Text} {last : Text}
    (free : ∀ word ∈ words, Segments.Free '/' word) (lastFree : Segments.Free '/' last)
    (named : words.head? ≠ some []) (after : Text) :
    (walkLoop parserState (-1) (Segments.unite '/' words ++ (last ++ after))
        ((Segments.unite '/' words).length + last.length)).run execute store =
      (if words.head? = some ['.', '.'] then .error .nilReply else .ok (-1), store) := by
  cases words with
  | nil =>
    rw [Tree.walkLoop_nil parserState (-1) lastFree]
    rfl
  | cons word words =>
    have wordFree := free word List.mem_cons_self
    have wordNamed : word ≠ [] := by simpa using named
    have follows : Follows true ('/' :: (Segments.unite '/' words ++ (last ++ after))) := ⟨_, rfl⟩
    have look := adrift.findObject_run wordNamed wordFree parserState follows
    rw [Tree.walkLoop_cons parserState (-1) wordFree]
    by_cases up : word = ['.', '.']
    · rw [if_pos up] at look
      rw [up, List.head?_cons, if_pos rfl]
      rw [up] at look
      exact Program.run_bind_error execute look _
    · rw [if_neg up] at look
      rw [List.head?_cons, if_neg (by simpa using up)]
      exact Program.run_bind_ok execute look _

omit named free in
theorem getDirId_run {path : Text} (nonempty : path ≠ []) (relative : path.head? ≠ some '/') :
    (getDirIdFromPath (-1) path).run execute store =
      (if (components path).head? = some ['.', '.'] then .error .nilReply else .ok (-1), store) := by
  obtain ⟨word, words, parts, named⟩ := components_relative nonempty relative
  have lead : pathLead path = [] := by simp [pathLead, relative, trail]
  have away : origin (-1) path = -1 := by simp [origin, relative]
  obtain ⟨start, closed⟩ := pathWords_closed nonempty (-1)
  rw [lead, List.length_nil, List.drop_zero] at closed
  rw [away] at start
  rw [getDirIdFromPath]
  generalize (if path.getLast? ≠ some '/' then path ++ ['/'] else path) = whole at start closed ⊢
  have walk := adrift.walkLoop_run initVfsPathParserState (pathWords_free whole) (Segments.rest_free '/' whole)
    (by simpa [closed, parts] using named) []
  have same := dirId_eq (-1) whole
  rw [List.append_nil, closed] at walk
  rw [start, closed] at same
  rw [same]
  exact walk

end Store.Adrift

namespace Store.Readable

variable {store : Store} {inside : Int → Prop} (readable : store.Readable inside)

include readable

theorem parse_file {base : Int} (here : inside base) {path : Text} (found : (store.parse base path).1 ≠ -1)
    (file : (store.parse base path).2.isFilePath = true) :
    ∃ name, store.fileName (store.parse base path).2.id = some name ∧
      0 ≤ (store.parse base path).2.id ∧ (store.parse base path).2.id ≤ LONG_MAX := by
  unfold Store.parse at found file ⊢
  cases located : locate path with
  | none =>
    rw [located] at file
    cases file
  | some location =>
    simp only [located] at found file ⊢
    cases led : store.view.leads base location.folders with
    | none =>
      rw [led] at found
      exact absurd rfl found
    | some d =>
      rw [led] at file
      have there := readable.closed.leads here led
      simp only [Store.parseIn] at file ⊢
      by_cases unnamed : location.last = []
      · rw [if_pos unnamed] at file
        cases file
      · rw [if_neg unnamed] at file ⊢
        cases oldest : store.oldestFile d location.last location.slash with
        | none =>
          rw [oldest] at file
          cases named : store.view.named d location.last with
          | none =>
            rw [named] at file
            cases file
          | some id =>
            rw [named] at file
            cases file
        | some id =>
          obtain ⟨low, high, name, held, -⟩ :=
            readable.file there (List.mem_reverse.mp (List.mem_of_find?_eq_some oldest))
          exact ⟨name, held, low, high⟩

section Contexts

variable (root : inside 0) (narrow : ∀ d, inside d → d < 2 ^ 31) (adrift : store.Adrift)
  {cwd path : Text} (nonempty : path ≠ [])

include root

theorem base_inside (based : ¬ (path.head? ≠ some '/' ∧ store.Lost { cwd := '/' :: cwd })) :
    inside (store.base { cwd := '/' :: cwd } path) := by
  unfold Store.base origin
  split
  · exact root
  · next relative =>
    cases led : store.view.leads 0 (components cwd) with
    | none => exact absurd ⟨relative, led⟩ based
    | some d =>
      simp only [List.drop_succ_cons, List.drop_zero, led, Option.getD_some]
      exact readable.closed.leads root led

include narrow adrift nonempty

theorem folderId_run :
    (getFolderIdFromPath { cwd := '/' :: cwd } path).run execute store =
      (store.folderAt { cwd := '/' :: cwd } path, store) := by
  rw [getFolderIdFromPath, Program.run_bind_ok execute (readable.getCwdId_run root narrow cwd), Store.folderAt]
  by_cases lost : path.head? ≠ some '/' ∧ store.Lost { cwd := '/' :: cwd }
  · obtain ⟨relative, led⟩ := lost
    have led : store.view.leads 0 (components cwd) = none := led
    rw [if_pos ⟨relative, led⟩, led]
    exact adrift.getDirId_run nonempty relative
  · have here := readable.base_inside root lost
    rw [if_neg lost]
    exact readable.getDirId_run nonempty here (readable.within narrow here _)

omit adrift in
theorem fileId_run (based : ¬ (path.head? ≠ some '/' ∧ store.Lost { cwd := '/' :: cwd })) :
    (getFileIdFromPath { cwd := '/' :: cwd } path).run execute store =
      (.ok (store.fileAt { cwd := '/' :: cwd } path), store) := by
  have here : inside (origin ((store.view.leads 0 (components cwd)).getD (-1)) path) :=
    readable.base_inside root based
  have parse := readable.parsePath_run nonempty here (readable.parsesWithin narrow here _) initVfsPathParserState
  rw [getFileIdFromPath, Program.run_bind_ok execute (readable.getCwdId_run root narrow cwd),
    Program.run_bind_ok execute parse, Store.fileAt, if_neg based]
  simp only [Store.base, List.drop_succ_cons, List.drop_zero]
  split
  · rfl
  · split <;> rfl

-- A lost path names no file, and stops where the parser asks for what is above -1.
theorem fileId_lost (relative : path.head? ≠ some '/') (lost : store.Lost { cwd := '/' :: cwd }) :
    (getFileIdFromPath { cwd := '/' :: cwd } path).run execute store = (.ok (-1), store) ∨
      (components path).head? = some ['.', '.'] ∧
        (getFileIdFromPath { cwd := '/' :: cwd } path).run execute store = (.error .nilReply, store) := by
  have lost : store.view.leads 0 (components cwd) = none := lost
  rw [getFileIdFromPath, Program.run_bind_ok execute (readable.getCwdId_run root narrow cwd), lost]
  cases located : locate path with
  | none =>
    rcases locate_none located with rfl | rfl
    · exact absurd rfl nonempty
    · exact absurd rfl relative
  | some location =>
    have reads := Location.readsFrom located (-1)
    rw [show origin (-1) path = -1 by simp [origin, relative]] at reads
    obtain ⟨word, words, parts, named⟩ := components_relative nonempty relative
    obtain ⟨shape, lead⟩ := locate_some located
    have open_ : location.absolute = false := by simpa using fun absolute => relative (lead.mp absolute)
    have split_ : components path = location.folders ++ [location.last] := by
      rw [shape, Location.text, Location.lead, open_]
      exact (components_unite location.foldersFree _).trans
        (congrArg _ (components_named location.lastFree location.ends))
    have headed : location.folders.head? ≠ some [] := by
      intro unnamed
      obtain ⟨others, folders⟩ := List.head?_eq_some_iff.mp unnamed
      rw [split_, folders, List.cons_append] at parts
      exact named (List.cons.inj parts).1.symm
    have walk := adrift.walkLoop_run initVfsPathParserState location.foldersFree location.lastFree headed
      (trail location.slash)
    have parsed := location.parsePath_eq initVfsPathParserState reads
    rw [← shape] at parsed
    by_cases up : location.folders.head? = some ['.', '.']
    · have parse : (vfsParsePath initVfsPathParserState path path.length (-1)).run execute store =
          (.error .nilReply, store) := by
        rw [if_pos up] at walk
        rw [parsed]
        exact Program.run_bind_error execute walk _
      refine .inr ⟨?_, Program.run_bind_error execute parse _⟩
      rw [split_, List.head?_append, up]
      rfl
    · have parse : (vfsParsePath initVfsPathParserState path path.length (-1)).run execute store =
          (.ok (-1, location.parserState), store) := by
        rw [if_neg up] at walk
        rw [parsed]
        exact Program.run_bind_ok execute walk _
      exact .inl (Program.run_bind_ok execute parse _)

omit narrow adrift nonempty in
theorem fileAt_run (found : store.fileAt { cwd := '/' :: cwd } path ≠ -1) :
    (redisGetFileName (store.fileAt { cwd := '/' :: cwd } path)).run execute store =
      (.ok ((store.fileName (store.fileAt { cwd := '/' :: cwd } path)).getD []), store) := by
  unfold Store.fileAt at found ⊢
  split at found
  · exact absurd rfl found
  · next based =>
    rw [if_neg based]
    simp only at found ⊢
    split at found
    · exact absurd rfl found
    · next parsed =>
      split at found
      · exact absurd rfl found
      · next file =>
        have here := readable.base_inside root based
        obtain ⟨name, named, low, high⟩ := readable.parse_file here parsed (by simpa using file)
        rw [if_neg parsed, if_neg file, named]
        exact fileName_run (unsigned_of_range low high) named

omit narrow adrift nonempty in
theorem folderAt_run {d : Int} (answer : store.folderAt { cwd := '/' :: cwd } path = .ok d) (found : d ≠ -1) :
    (redisGetFolderName d).run execute store = (.ok ((store.folderName d).getD []), store) := by
  unfold Store.folderAt at answer
  split at answer
  · split at answer
    · cases answer
    · exact absurd (Except.ok.inj answer).symm found
  · next based =>
    have here := readable.base_inside root based
    cases led : store.view.leads (store.base { cwd := '/' :: cwd } path)
        (components (path.drop (pathLead path).length)) with
    | none =>
      rw [led] at answer
      exact absurd (Except.ok.inj answer).symm found
    | some e =>
      rw [led] at answer
      obtain rfl : e = d := Except.ok.inj answer
      have there := readable.closed.leads here led
      obtain ⟨name, named⟩ := readable.named there
      rw [named]
      exact folderName_run (readable.number there) named

theorem stat_folder_run (noFile : path.getLast? ≠ some '/' → store.fileAt { cwd := '/' :: cwd } path = -1) :
    (do
      let folderId ← getFolderIdFromPath { cwd := '/' :: cwd } path
      if folderId = -1 then
        return { id := -1, exists_ := false, type := none, parentId := none, name := [] }
      else
        let name ← redisGetFolderName folderId
        return { id := folderId, exists_ := true, type := some .DIR_ITEM_FOLDER, parentId := none, name }
      : Prog DirItemInfo).run execute store = (store.statAt { cwd := '/' :: cwd } path, store) := by
  have folderRun := @folderId_run store inside readable root narrow adrift cwd path nonempty
  have none : (if path.getLast? ≠ some '/' then store.fileAt { cwd := '/' :: cwd } path else -1) = -1 := by
    split
    · next open_ => exact noFile open_
    · rfl
  rw [Store.statAt, none]
  cases answer : store.folderAt { cwd := '/' :: cwd } path with
  | error fault =>
    rw [answer] at folderRun
    exact Program.run_bind_error execute folderRun _
  | ok d =>
    rw [answer] at folderRun
    rw [Program.run_bind_ok execute folderRun]
    by_cases missing : d = -1
    · simp only [missing]
      rfl
    · rw [if_neg missing]
      simp only [missing]
      exact Program.run_bind_ok execute (readable.folderAt_run root answer missing) _

theorem stat_run :
    (stat { cwd := '/' :: cwd } path).run execute store = (store.statAt { cwd := '/' :: cwd } path, store) := by
  have folderRun := @stat_folder_run store inside readable root narrow adrift cwd path nonempty
  unfold stat
  by_cases closed : path.getLast? = some '/'
  · rw [if_neg (not_not.mpr closed)]
    exact folderRun fun open_ => absurd closed open_
  · rw [if_pos closed]
    by_cases lost : path.head? ≠ some '/' ∧ store.Lost { cwd := '/' :: cwd }
    · have noFile : store.fileAt { cwd := '/' :: cwd } path = -1 := by rw [Store.fileAt, if_pos lost]
      rcases readable.fileId_lost root narrow adrift nonempty lost.1 lost.2 with asked | ⟨up, asked⟩
      · rw [Program.run_bind_ok execute asked]
        exact folderRun fun _ => noFile
      · have stops : store.folderAt { cwd := '/' :: cwd } path = .error .nilReply := by
          rw [Store.folderAt, if_pos lost, if_pos up]
        rw [Program.run_bind_error execute asked, Store.statAt, stops]
    · rw [Program.run_bind_ok execute (readable.fileId_run root narrow nonempty lost)]
      beta_reduce
      by_cases noFile : store.fileAt { cwd := '/' :: cwd } path = -1
      · rw [if_neg (not_not.mpr noFile)]
        exact folderRun fun _ => noFile
      · obtain ⟨d, answer⟩ : ∃ d, store.folderAt { cwd := '/' :: cwd } path = .ok d := by
          rw [Store.folderAt, if_neg lost]
          exact ⟨_, rfl⟩
        rw [if_pos noFile, Store.statAt, answer]
        simp only [closed, noFile, ne_eq, not_false_eq_true, if_true]
        exact Program.run_bind_ok execute (readable.fileAt_run root noFile) _

end Contexts

end Store.Readable

end RedisVfs
