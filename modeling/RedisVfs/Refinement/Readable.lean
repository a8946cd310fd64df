import RedisVfs.Refinement.Anywhere
import RedisVfs.Refinement.Reaching
import RedisVfs.Refinement.Viewing
import RedisVfs.Shared.Pruning

set_option autoImplicit false

namespace RedisVfs

open CString Directory

-- Folders from which every path can be read: each has a name and a folder above it that is older, and
-- what they list has names too, those of files without a '/' but at the end.
structure Store.Readable (store : Store) (inside : Int → Prop) : Prop where
  range : ∀ {d}, inside d → 0 ≤ d ∧ d ≤ LONG_MAX
  named : ∀ {d}, inside d → ∃ name, store.folderName d = some name
  above : ∀ {d}, inside d → ∃ e, store.folderParent d = some e ∧ inside e ∧ e ≤ d ∧ (d ≠ 0 → e < d)
  folder : ∀ {d e}, inside d → e ∈ store.folders d → inside e
  file : ∀ {d e}, inside d → e ∈ store.files d →
    0 ≤ e ∧ e ≤ LONG_MAX ∧ ∃ name, store.fileName e = some name ∧ Closed name

theorem unsigned_of_range {d : Int} (low : 0 ≤ d) (high : d ≤ LONG_MAX) : (unsigned d : Int) = d := by
  obtain ⟨n, rfl⟩ := Int.eq_ofNat_of_zero_le low
  rw [unsigned_natCast high]

section Names

variable {store : Store} {id : Int}

theorem folderName_run {name : Text} (number : (unsigned id : Int) = id)
    (named : store.folderName id = some name) : (vfsGetFolderName id).run execute store = (.ok name, store) := by
  obtain ⟨value, held, rfl⟩ := Option.map_eq_some_iff.mp named
  rw [vfsGetFolderName, number, Program.run_bind_ok execute (hget_run held)]
  rfl

theorem fileName_run {name : Text} (number : (unsigned id : Int) = id)
    (named : store.fileName id = some name) : (vfsGetFileName id).run execute store = (.ok name, store) := by
  obtain ⟨value, held, rfl⟩ := Option.map_eq_some_iff.mp named
  rw [vfsGetFileName, number, Program.run_bind_ok execute (hget_run held)]
  rfl

theorem dirParent_run {above : Int} (number : (unsigned id : Int) = id)
    (parent : store.folderParent id = some above) :
    (vfsGetDirParent id).run execute store = (.ok above, store) := by
  obtain ⟨value, held, rfl⟩ := Option.map_eq_some_iff.mp parent
  exact vfsGetDirParent_run (by rw [number]; exact held)

theorem findDirLoop_named {text : Text} {length : Nat} {elements : List Text}
    (names : ∀ element ∈ elements, ∃ name,
      (vfsGetFolderName (strtol element)).run execute store = (.ok name, store) ∧
        store.folderName (strtol element) = some name) :
    (findDirLoop text length elements).run execute store =
      (.ok (((elements.map strtol).find? fun id =>
        (store.folderName id).any (strncmpEq text · length)).getD (-1)), store) := by
  induction elements with
  | nil => rfl
  | cons element elements ih =>
    obtain ⟨name, run, named⟩ := names element List.mem_cons_self
    rw [findDirLoop, Program.run_bind_ok execute run]
    by_cases same : strncmpEq text name length = true
    · simp [same, named]
    · simpa [same, named] using ih fun other member => names other (List.mem_cons_of_mem _ member)

theorem findFileLoop_named {text : Text} {length : Nat} {elements : List Text} {matchId : Int}
    (names : ∀ element ∈ elements, ∃ name,
      (vfsGetFileName (strtol element)).run execute store = (.ok name, store) ∧
        store.fileName (strtol element) = some name) :
    (findFileLoop text length matchId elements).run execute store =
      (.ok (((elements.map strtol).reverse.find? fun id =>
        (store.fileName id).any fun name => strncmpEq text name (max length name.length)).getD matchId),
          store) := by
  induction elements generalizing matchId with
  | nil => rfl
  | cons element elements ih =>
    obtain ⟨name, run, named⟩ := names element List.mem_cons_self
    rw [findFileLoop, Program.run_bind_ok execute run,
      ih fun other member => names other (List.mem_cons_of_mem _ member)]
    rw [List.map_cons, List.reverse_cons, List.find?_append]
    cases (elements.map strtol).reverse.find? _ with
    | some other => rfl
    | none => by_cases same : strncmpEq text name (max length name.length) = true <;> simp [same, named]

end Names

theorem Store.oldestFile_iff (store : Store) (d : Int) (word : Text) (slash : Bool) :
    some word ∈ store.view.files d ∨ slash = true ∧ some (word ++ ['/']) ∈ store.view.files d ↔
      store.oldestFile d word slash ≠ none := by
  have matches_ (id : Int) : (store.fileName id).any (fileNamed word slash) = true ↔
      store.fileName id = some word ∨ slash = true ∧ store.fileName id = some (word ++ ['/']) := by
    cases store.fileName id <;> simp [fileNamed]
  simp only [Store.view, Store.oldestFile, List.mem_map, Ne, List.find?_eq_none, List.mem_reverse, matches_]
  push Not
  constructor
  · rintro (⟨id, listed, same⟩ | ⟨closed, id, listed, same⟩)
    · exact ⟨id, listed, .inl same⟩
    · exact ⟨id, listed, .inr ⟨closed, same⟩⟩
  · rintro ⟨id, listed, same | ⟨closed, same⟩⟩
    · exact .inl ⟨id, listed, same⟩
    · exact .inr ⟨closed, id, listed, same⟩

theorem Store.shadowed_iff (store : Store) (d : Int) (word : Text) :
    store.view.Shadowed d word ↔ store.oldestFile d word true ≠ none := by
  simpa [View.Shadowed] using store.oldestFile_iff d word true

theorem Store.view_seek {store : Store} {d e : Int} {word : Text} {slash : Bool} :
    store.view.seek d word slash = some e ↔
      store.oldestFile d word slash = none ∧ store.view.named d word = some e := by
  have shadowed := store.oldestFile_iff d word slash
  unfold View.seek
  by_cases file : store.oldestFile d word slash = none
  · rw [if_neg (mt shadowed.mp (not_not.mpr file))]
    simp [file]
  · rw [if_pos (shadowed.mpr file)]
    simp [file]

def Store.seek (store : Store) (parserState : VfsPathParserState) (d : Int) (word : Text) (slash : Bool) :
    Int × VfsPathParserState :=
  match store.oldestFile d word slash with
  | some id => (0, { parserState with id, isFilePath := true, isDir := false })
  | none =>
      match store.view.named d word with
      | some id => (0, { parserState with id, isFilePath := false, isDir := true })
      | none => (-1, parserState)

def Store.parseIn (store : Store) (location : Location) (d : Int) : VfsPathParserState :=
  if location.last = [] then location.parserState
  else
    match store.oldestFile d location.last location.slash with
    | some id => { location.parserState with id, isFilePath := true, isDir := false, parentId := d }
    | none =>
        match store.view.named d location.last with
        | some id =>
            { location.parserState with
              id, isFilePath := false, isDir := true, parentId := (store.folderParent id).getD (-1) }
        | none => { location.parserState with isExistingObject := false, parentId := d }

def Store.parse (store : Store) (base : Int) (path : Text) : Int × VfsPathParserState :=
  match locate path with
  | none => (0, rootParserState)
  | some location =>
      match store.view.leads base location.folders with
      | none => (-1, location.parserState)
      | some d => (0, store.parseIn location d)

def Store.Lost (store : Store) (context : FsContext) : Prop :=
  store.view.leads 0 (components (context.cwd.drop 1)) = none

instance (store : Store) (context : FsContext) : Decidable (store.Lost context) :=
  inferInstanceAs (Decidable (_ = _))

def Store.Baseless (store : Store) (context : FsContext) (path : Text) : Prop :=
  path = [] ∨ path.head? ≠ some '/' ∧ store.Lost context

instance (store : Store) (context : FsContext) (path : Text) : Decidable (store.Baseless context path) :=
  inferInstanceAs (Decidable (_ ∨ _))

def baselessMessage (path : Text) : Text :=
  if path = [] then "Could not get parent of invalid path: \n".toList
  else "failed to get left side of expression".toList

-- What can stop a call: an exception, or a climb from a folder with too few turns for its number.
inductive Store.Stops (store : Store) (inside : Int → Prop) (fuel : Nat) (context : FsContext) (path : Text) :
    Fault → Prop
  | thrown (baseless : store.Baseless context path) :
      Stops store inside fuel context path (.thrown (baselessMessage path))
  | outOfFuel {d : Int} (here : inside d) (short : (fuel : Int) < d) :
      Stops store inside fuel context path .outOfFuel

theorem Store.Stops.baseless {store : Store} {inside : Int → Prop} {fuel : Nat} {context : FsContext}
    {path : Text} {fault : Fault} (stops : store.Stops inside fuel context path fault)
    (enough : ∀ d, inside d → d ≤ fuel) :
    store.Baseless context path ∧ fault = .thrown (baselessMessage path) := by
  cases stops with
  | thrown baseless => exact ⟨baseless, rfl⟩
  | @outOfFuel d here short =>
    have less := enough d here
    omega

def Placed (inside : Int → Prop) (parentId : Int) (name : Text) : Prop :=
  parentId = -1 ∧ name = ['/'] ∨ inside parentId ∧ Shaped name

theorem dirId_eq (d : Int) (path : Text) :
    vfsGetDirIdFromPath d path path.length =
      walkLoop initVfsPathParserState (origin d path)
        (Segments.unite '/' (pathWords path) ++ Segments.rest '/' path)
        ((Segments.unite '/' (pathWords path)).length + (Segments.rest '/' path).length) := by
  have parts := path_parts path
  have size := congrArg List.length parts
  rw [List.length_append, List.length_append] at size
  cases path with
  | nil => rfl
  | cons c path =>
    by_cases slash : c = '/'
    · subst slash
      have lead : pathLead ('/' :: path) = ['/'] := rfl
      rw [lead] at parts size
      have rest : Segments.unite '/' (pathWords ('/' :: path)) ++ Segments.rest '/' ('/' :: path) = path :=
        (List.cons.inj parts).2
      simp only [List.length_cons, List.length_nil] at size
      rw [rest, vfsGetDirIdFromPath, origin]
      congr 1
      simp only [List.length_cons]
      omega
    · have lead : pathLead (c :: path) = [] := by simp [pathLead, slash, trail]
      have start : origin d (c :: path) = d := by simp [origin, slash]
      rw [lead] at parts size
      rw [List.nil_append] at parts
      rw [start, parts, vfsGetDirIdFromPath.eq_def]
      split
      next same => exact absurd (List.cons.inj same).1 slash
      next =>
        congr 1
        simpa using size.symm

namespace Store.Readable

variable {store : Store} {inside : Int → Prop} (readable : store.Readable inside)

include readable

theorem number {d : Int} (here : inside d) : (unsigned d : Int) = d :=
  unsigned_of_range (readable.range here).1 (readable.range here).2

theorem closed : store.view.Closed inside where
  child := readable.folder
  above {d e} here parent := by
    obtain ⟨above, held, there, -⟩ := readable.above here
    cases held.symm.trans parent
    exact there

theorem listed_names {d : Int} (here : inside d) :
    ∀ element ∈ store.lists (.folderFolders d), ∃ name,
      (vfsGetFolderName (strtol element)).run execute store = (.ok name, store) ∧
        store.folderName (strtol element) = some name := by
  intro element member
  have listed : strtol element ∈ store.folders d := List.mem_map_of_mem member
  have there := readable.folder here listed
  obtain ⟨name, named⟩ := readable.named there
  exact ⟨name, folderName_run (readable.number there) named, named⟩

theorem listed_files {d : Int} (here : inside d) :
    ∀ element ∈ store.lists (.folderFiles d), ∃ name,
      (vfsGetFileName (strtol element)).run execute store = (.ok name, store) ∧
        store.fileName (strtol element) = some name := by
  intro element member
  have listed : strtol element ∈ store.files d := List.mem_map_of_mem member
  obtain ⟨low, high, name, named, -⟩ := readable.file here listed
  exact ⟨name, fileName_run (unsigned_of_range low high) named, named⟩

theorem findFile_run {d : Int} (here : inside d) {word after : Text} {slash : Bool}
    (free : Segments.Free '/' word) (follows : Follows slash after) :
    (vfsFindFileNameInDir d (word ++ after) word.length).run execute store =
      (.ok ((store.oldestFile d word slash).getD (-1)), store) := by
  have loop := @findFileLoop_named store (word ++ after) word.length _ (-1) (readable.listed_files here)
  have same : (store.lists (.folderFiles d)).map strtol = store.files d := rfl
  have compared : (store.files d).reverse.find? (fun id => (store.fileName id).any fun name =>
      strncmpEq (word ++ after) name (max word.length name.length)) = store.oldestFile d word slash := by
    refine List.find?_congr fun id member => ?_
    obtain ⟨-, -, name, named, shape⟩ := readable.file here (List.mem_reverse.mp member)
    simp only [named, Option.any_some]
    exact fileMatch_closed free follows shape
  rw [same, compared] at loop
  rw [vfsFindFileNameInDir, readable.number here, Program.run_bind_ok execute (run_redisCommand _ _)]
  exact loop

theorem findDir_run {d : Int} (here : inside d) (word after : Text) :
    (vfsFindDirNameInDir d (word ++ after) word.length).run execute store =
      (.ok ((store.view.named d word).getD (-1)), store) := by
  have dot := strncmpEq_word ['.'] word after
  have dots := strncmpEq_word ['.', '.'] word after
  simp only [List.length_cons, List.length_nil, Nat.zero_add, Nat.reduceAdd] at dot dots
  unfold vfsFindDirNameInDir View.named
  simp only [dot, dots]
  split
  · rfl
  · split
    · obtain ⟨above, held, -⟩ := readable.above here
      have parent : store.view.parent d = some above := held
      rw [dirParent_run (readable.number here) held, parent]
      rfl
    · have loop := @findDirLoop_named store (word ++ after) word.length _ (readable.listed_names here)
      have compared : (fun id => (store.folderName id).any (strncmpEq (word ++ after) · word.length)) =
          fun id => (store.view.name id).any word.isPrefixOf := by
        have begins : (strncmpEq (word ++ after) · word.length) = word.isPrefixOf := by
          funext name
          rw [Bool.eq_iff_iff, strncmpEq_prefix, List.isPrefixOf_iff_prefix]
        rw [begins]
        rfl
      rw [compared] at loop
      rw [readable.number here, Program.run_bind_ok execute (run_redisCommand _ _)]
      exact loop

theorem findObject_run {d : Int} (here : inside d) (parserState : VfsPathParserState) {word after : Text}
    {slash : Bool} (free : Segments.Free '/' word) (follows : Follows slash after)
    (small : ∀ e, store.view.seek d word slash = some e → e < 2 ^ 31) :
    (vfsFindObjectInDir parserState d (word ++ after) word.length).run execute store =
      (.ok (store.seek parserState d word slash), store) := by
  rw [vfsFindObjectInDir, Program.run_bind_ok execute (readable.findFile_run here free follows), Store.seek]
  cases file : store.oldestFile d word slash with
  | some id =>
    have low := (readable.file here (List.mem_reverse.mp (List.mem_of_find?_eq_some file))).1
    have known : id ≠ -1 := by omega
    simp [known]
  | none =>
    simp only [Option.getD_none, ne_eq, not_true_eq_false, if_false]
    rw [Program.run_bind_ok execute (readable.findDir_run here word after)]
    cases named : store.view.named d word with
    | some id =>
      have low := (readable.range (readable.closed.named here named)).1
      have high := small id (Store.view_seek.mpr ⟨file, named⟩)
      have known : id ≠ -1 := by omega
      simp [implicitInt_of_small (by omega) high, known]
    | none => simp [show implicitInt (-1) = -1 from rfl]

theorem walkLoop_run {d : Int} (here : inside d) (parserState : VfsPathParserState) {words : List Text}
    {last : Text} (free : ∀ word ∈ words, Segments.Free '/' word) (lastFree : Segments.Free '/' last)
    (after : Text) (within : store.view.Within (· < 2 ^ 31) d words) :
    (walkLoop parserState d (Segments.unite '/' words ++ (last ++ after))
        ((Segments.unite '/' words).length + last.length)).run execute store =
      (.ok ((store.view.leads d words).getD (-1)), store) := by
  induction words generalizing d parserState with
  | nil =>
    rw [Tree.walkLoop_nil parserState d lastFree]
    rfl
  | cons word words ih =>
    have wordFree := free word List.mem_cons_self
    have follows : Follows true ('/' :: (Segments.unite '/' words ++ (last ++ after))) := ⟨_, rfl⟩
    have step := View.within_cons.mp within
    rw [← View.seek_closed] at step
    have small (e : Int) (found : store.view.seek d word true = some e) : e < 2 ^ 31 := (step e found).1
    rw [Tree.walkLoop_cons parserState d wordFree,
      Program.run_bind_ok execute (readable.findObject_run here parserState wordFree follows small),
      View.leads_cons, View.enter, Store.seek]
    simp only [store.shadowed_iff]
    cases file : store.oldestFile d word true with
    | some id => simp
    | none =>
      cases named : store.view.named d word with
      | none => simp
      | some id =>
        have there := readable.closed.named here named
        have low := (readable.range there).1
        have known : id ≠ -1 := by omega
        simpa [named, known] using ih there _ (fun other member => free other (List.mem_cons_of_mem _ member))
          (step id (Store.view_seek.mpr ⟨file, named⟩)).2

theorem dirId_run {d : Int} (path : Text) (here : inside (origin d path))
    (within : store.view.Within (· < 2 ^ 31) (origin d path) (pathWords path)) :
    (vfsGetDirIdFromPath d path path.length).run execute store =
      (.ok ((store.view.leads (origin d path) (pathWords path)).getD (-1)), store) := by
  have walk := readable.walkLoop_run here initVfsPathParserState (pathWords_free path)
    (Segments.rest_free '/' path) [] within
  rw [List.append_nil, ← dirId_eq d path] at walk
  exact walk

theorem getDirId_run {d : Int} {path : Text} (nonempty : path ≠ []) (here : inside (origin d path))
    (within : store.view.Within (· < 2 ^ 31) (origin d path) (components (path.drop (pathLead path).length))) :
    (getDirIdFromPath d path).run execute store =
      (.ok ((store.view.leads (origin d path) (components (path.drop (pathLead path).length))).getD (-1)),
        store) := by
  obtain ⟨start, words⟩ := pathWords_closed nonempty d
  rw [getDirIdFromPath]
  refine (readable.dirId_run _ (by rw [start]; exact here) (by rw [start, words]; exact within)).trans ?_
  rw [start, words]

theorem parseLastName_run {d : Int} (here : inside d) (location : Location)
    (small : location.last ≠ [] →
      ∀ e, store.view.seek d location.last location.slash = some e → e < 2 ^ 31) :
    (parseLastName location.parserState d location.text).run execute store =
      (.ok (0, store.parseIn location d), store) := by
  rw [parseLastName, Store.parseIn, location.parserState_nameLength, location.parserState_nameOffset]
  by_cases unnamed : location.last = []
  · simp [unnamed]
  · have follows : Follows location.slash (trail location.slash) := by
      cases location.slash <;> simp [Follows, trail]
    have look := readable.findObject_run here location.parserState location.lastFree follows (small unnamed)
    rw [← location.drop_offset] at look
    rw [if_pos (List.length_pos_iff.mpr unnamed), if_neg unnamed, Program.run_bind_ok execute look,
      Store.seek]
    cases file : store.oldestFile d location.last location.slash with
    | some id => rfl
    | none =>
      cases named : store.view.named d location.last with
      | none => rfl
      | some id =>
        have there := readable.closed.named here named
        have high := small unnamed id (Store.view_seek.mpr ⟨file, named⟩)
        obtain ⟨above, held, higher, older, -⟩ := readable.above there
        have parent := dirParent_run (readable.number there) held
        have low := (readable.range higher).1
        have cut : implicitInt above = above := implicitInt_of_small (by omega) (by omega)
        simp only [ne_eq, not_true_eq_false, if_false, Bool.false_eq_true]
        rw [Program.run_bind_ok execute parent, held]
        simp [cut, Location.parserState, initVfsPathParserState]

theorem parse_run {location : Location} {cwd base : Int} (reads : location.ReadsFrom cwd base)
    (here : inside base) (within : location.Within store.view (· < 2 ^ 31) base)
    (parserState : VfsPathParserState) :
    (vfsParsePath parserState location.text location.text.length cwd).run execute store =
      (.ok (match store.view.leads base location.folders with
        | none => (-1, location.parserState)
        | some d => (0, store.parseIn location d)), store) := by
  have walk := readable.walkLoop_run here initVfsPathParserState location.foldersFree location.lastFree
    (trail location.slash) within.1
  rw [location.parsePath_eq parserState reads, Program.run_bind_ok execute walk]
  cases led : store.view.leads base location.folders with
  | none => rfl
  | some d =>
    have there := readable.closed.leads here led
    have low := (readable.range there).1
    have known : d ≠ -1 := by omega
    simp only [Option.getD_some, known, if_false]
    exact readable.parseLastName_run there location fun named e found => within.2 d e led named found

theorem parsePath_run {path : Text} {cwd : Int} (nonempty : path ≠ []) (here : inside (origin cwd path))
    (within : ParsesWithin store.view (· < 2 ^ 31) (origin cwd path) path) (parserState : VfsPathParserState) :
    (vfsParsePath parserState path path.length cwd).run execute store =
      (.ok (store.parse (origin cwd path) path), store) := by
  unfold Store.parse
  cases located : locate path with
  | none =>
    obtain rfl := (locate_none located).resolve_left nonempty
    rfl
  | some location =>
    have reads := Location.readsFrom located cwd
    have run := readable.parse_run reads here (within location located) parserState
    rw [← (locate_some located).1] at run
    exact run

-- The folders above get older, so the climb ends.
theorem climbLoop_run {d : Int} (here : inside d) (fuel : Nat) {output : Text}
    (absolute : output = [] ∨ output.head? = some '/') :
    (∃ text, (climbLoop fuel d output).run execute store = (.ok ('/' :: text), store)) ∨
      (fuel : Int) < d ∧ (climbLoop fuel d output).run execute store = (.error .outOfFuel, store) := by
  have arrived (root : d = 0) :
      ∃ text, (climbLoop fuel d output).run execute store = (.ok ('/' :: text), store) := by
    have run : (climbLoop fuel d output).run execute store = (.ok (output ++ ['/']), store) := by
      rw [root]
      cases fuel <;> rfl
    rcases absolute with rfl | slash
    · exact ⟨[], run⟩
    · obtain ⟨text, rfl⟩ := List.head?_eq_some_iff.mp slash
      exact ⟨text ++ ['/'], run⟩
  by_cases root : d = 0
  · exact .inl (arrived root)
  · induction fuel generalizing d output with
    | zero =>
      have low := (readable.range here).1
      refine .inr ⟨by omega, ?_⟩
      simp [climbLoop, root]
    | succ fuel ih =>
      obtain ⟨name, named⟩ := readable.named here
      obtain ⟨above, held, there, -, older⟩ := readable.above here
      have nameRun : (getNonRootFolderName d).run execute store = (.ok name, store) := by
        rw [getNonRootFolderName, if_neg (show ¬ d = ROOT_FOLDER_ID from root)]
        exact folderName_run (readable.number here) named
      have parentRun : (getParentIdById d).run execute store = (.ok above, store) := by
        obtain ⟨value, found, rfl⟩ := Option.map_eq_some_iff.mp held
        exact redisGetFolderParentId_run (by rw [readable.number here]; exact found)
      have turn : (climbLoop (fuel + 1) d output).run execute store =
          (climbLoop fuel above ('/' :: name ++ output)).run execute store := by
        rw [climbLoop, if_neg root, Program.run_bind_ok execute nameRun, Program.run_bind_ok execute parentRun]
      rw [turn]
      by_cases top : above = 0
      · refine .inl ⟨name ++ output ++ ['/'], ?_⟩
        rw [top]
        cases fuel <;> rfl
      · have less := older root
        rcases @ih above there ('/' :: name ++ output) (.inr rfl) (absurd · top) top with done | ⟨short, stopped⟩
        · exact .inl done
        · exact .inr ⟨by push_cast; omega, stopped⟩

theorem absolutePath_run {d : Int} (here : inside d) (fuel : Nat) :
    (∃ text, (getAbsolutePathFromFolderId fuel d).run execute store = (.ok ('/' :: text), store)) ∨
      (fuel : Int) < d ∧
        (getAbsolutePathFromFolderId fuel d).run execute store = (.error .outOfFuel, store) := by
  unfold getAbsolutePathFromFolderId
  split
  · exact .inl ⟨[], rfl⟩
  · exact readable.climbLoop_run here fuel (.inl rfl)

theorem parseIn_placed {d : Int} (here : inside d) (location : Location) :
    Placed inside (store.parseIn location d).parentId
      (location.text.drop (store.parseIn location d).nameOffset) := by
  have name : location.text.drop location.offset = location.last ++ trail location.slash :=
    location.drop_offset
  unfold Store.parseIn
  by_cases unnamed : location.last = []
  · rw [if_pos unnamed, location.parserState_nameOffset, name, unnamed, location.ends unnamed]
    exact .inl ⟨rfl, rfl⟩
  · have shaped : Shaped (location.last ++ trail location.slash) :=
      ⟨_, _, unnamed, location.lastFree, rfl⟩
    rw [if_neg unnamed]
    cases file : store.oldestFile d location.last location.slash with
    | some id => exact .inr ⟨here, name ▸ shaped⟩
    | none =>
      cases named : store.view.named d location.last with
      | none => exact .inr ⟨here, name ▸ shaped⟩
      | some id =>
        obtain ⟨above, held, there, -⟩ := readable.above (readable.closed.named here named)
        refine .inr ⟨?_, name ▸ shaped⟩
        simp only [held, Option.getD_some]
        exact there

section Calls

variable (root : inside 0) (narrow : ∀ d, inside d → d < 2 ^ 31)

include narrow

theorem within {d : Int} (here : inside d) (words : List Text) : store.view.Within (· < 2 ^ 31) d words :=
  fun _ _ e _ led => narrow e (readable.closed.leads here led)

theorem parsesWithin {d : Int} (here : inside d) (path : Text) : ParsesWithin store.view (· < 2 ^ 31) d path := by
  refine fun location _ => ⟨readable.within narrow here _, fun e f led _ found => narrow f ?_⟩
  exact readable.closed.named (readable.closed.leads here led) (Store.view_seek.mp found).2

include root

theorem absolute_run (d : Int) (body : Text) :
    (getDirIdFromPath d ('/' :: body)).run execute store =
      (.ok ((store.view.leads 0 (components body)).getD (-1)), store) := by
  have start : origin d ('/' :: body) = 0 := by simp [origin]
  have run := @getDirId_run store inside readable d ('/' :: body) (List.cons_ne_nil _ _) (start ▸ root)
    (readable.within narrow (start ▸ root) _)
  rw [start] at run
  exact run

theorem getCwdId_run (cwd : Text) :
    (getCwdId { cwd := '/' :: cwd }).run execute store =
      (.ok ((store.view.leads 0 (components cwd)).getD (-1)), store) :=
  readable.absolute_run root narrow ROOT_FOLDER_ID cwd

theorem folderId_absolute_run (cwd body : Text) :
    (getFolderIdFromPath { cwd := '/' :: cwd } ('/' :: body)).run execute store =
      (.ok ((store.view.leads 0 (components body)).getD (-1)), store) := by
  rw [getFolderIdFromPath, Program.run_bind_ok execute (readable.getCwdId_run root narrow cwd)]
  exact readable.absolute_run root narrow _ body

theorem format_run (fuel : Nat) (cwd path : Text) :
    (∃ fault, store.Stops inside fuel { cwd := '/' :: cwd } path fault ∧
      (formatToValidPath fuel { cwd := '/' :: cwd } path).run execute store = (.error fault, store)) ∨
    ¬ store.Baseless { cwd := '/' :: cwd } path ∧
      ∃ body, (formatToValidPath fuel { cwd := '/' :: cwd } path).run execute store =
        (.ok ('/' :: body), store) := by
  unfold formatToValidPath getParentIdOfLeftSideOfExpression
  cases path with
  | nil => exact .inl ⟨_, .thrown (.inl rfl), rfl⟩
  | cons c path =>
    have some_ : ¬ (c :: path).length = 0 := Nat.succ_ne_zero _
    simp only [some_, if_false]
    by_cases absolute : (c :: path).head? = some '/'
    · have based : ¬ store.Baseless { cwd := '/' :: cwd } (c :: path) := by simp [Store.Baseless, absolute]
      refine .inr ⟨based, removeAnyPathPrefix (c :: path), ?_⟩
      rw [if_pos absolute]
      rfl
    · rw [if_neg absolute, Program.run_bind_ok execute (readable.folderId_absolute_run root narrow cwd cwd)]
      cases led : store.view.leads 0 (components cwd) with
      | none => exact .inl ⟨_, .thrown (.inr ⟨absolute, led⟩), rfl⟩
      | some d =>
        have based : ¬ store.Baseless { cwd := '/' :: cwd } (c :: path) := by
          simp [Store.Baseless, Store.Lost, led]
        have here := readable.closed.leads root led
        have low := (readable.range here).1
        have known : d ≠ -1 := by omega
        simp only [Option.getD_some, known, if_false]
        rcases readable.absolutePath_run here fuel with ⟨text, run⟩ | ⟨short, run⟩
        · refine .inr ⟨based, text ++ removeAnyPathPrefix (c :: path), ?_⟩
          rw [Program.run_bind_ok execute run]
          rfl
        · exact .inl ⟨.outOfFuel, .outOfFuel here short, Program.run_bind_error execute run _⟩

theorem parse_absolute_run (parserState : VfsPathParserState) (cwd : Int) (body : Text) :
    (∃ parserState', (vfsParsePath parserState ('/' :: body) ('/' :: body).length cwd).run execute store =
      (.ok (-1, parserState'), store)) ∨
    ∃ parserState', Placed inside parserState'.parentId (('/' :: body).drop parserState'.nameOffset) ∧
      (vfsParsePath parserState ('/' :: body) ('/' :: body).length cwd).run execute store =
        (.ok (0, parserState'), store) := by
  cases located : locate ('/' :: body) with
  | none =>
    obtain rfl := locate_root located
    exact .inr ⟨rootParserState, .inl ⟨rfl, rfl⟩, rfl⟩
  | some location =>
    have reads := Location.readsFrom located cwd
    rw [show origin cwd ('/' :: body) = 0 by simp [origin]] at reads
    have within := readable.parsesWithin narrow root _ location located
    rw [(locate_some located).1, readable.parse_run reads root within parserState]
    cases led : store.view.leads 0 location.folders with
    | none => exact .inl ⟨_, rfl⟩
    | some d => exact .inr ⟨_, readable.parseIn_placed (readable.closed.leads root led) location, rfl⟩

theorem creator_run (kind : Kind) (fuel : Nat) (cwd path : Text) :
    (∃ fault, store.Stops inside fuel { cwd := '/' :: cwd } path fault ∧
      (creator kind fuel { cwd := '/' :: cwd } path).run execute store = (.error fault, store)) ∨
    ¬ store.Baseless { cwd := '/' :: cwd } path ∧
      ((creator kind fuel { cwd := '/' :: cwd } path).run execute store = (.ok false, store) ∨
      ∃ parentId name, Placed inside parentId name ∧
        (creator kind fuel { cwd := '/' :: cwd } path).run execute store =
          (.ok true, (kind.creation parentId name).made store)) := by
  rcases readable.format_run root narrow fuel cwd path with ⟨fault, stops, format⟩ | ⟨based, body, format⟩
  · refine .inl ⟨fault, stops, ?_⟩
    cases kind <;> exact Program.run_bind_error execute format _
  · have cwdRun := readable.getCwdId_run root narrow cwd
    rcases readable.parse_absolute_run root narrow initVfsPathParserState
      ((store.view.leads 0 (components cwd)).getD (-1)) body with ⟨parserState, parse⟩ | ⟨parserState, placed, parse⟩
    · refine .inr ⟨based, .inl ?_⟩
      cases kind with
      | folder =>
        rw [creator, mkdir, Program.run_bind_ok execute format, Program.run_bind_ok execute cwdRun,
          Program.run_bind_ok execute parse]
        rfl
      | file =>
        rw [creator, createFile, Program.run_bind_ok execute format, Program.run_bind_ok execute cwdRun,
          Program.run_bind_ok execute parse]
        rfl
    · refine .inr ⟨based, .inr ⟨_, _, placed, ?_⟩⟩
      have made := (kind.creation parserState.parentId (('/' :: body).drop parserState.nameOffset)).any_run store
      cases kind with
      | folder =>
        rw [creator, mkdir, Program.run_bind_ok execute format, Program.run_bind_ok execute cwdRun,
          Program.run_bind_ok execute parse]
        exact Program.run_bind_ok execute made _
      | file =>
        rw [creator, createFile, Program.run_bind_ok execute format, Program.run_bind_ok execute cwdRun,
          Program.run_bind_ok execute parse]
        exact Program.run_bind_ok execute made _

theorem cd_run (fuel : Nat) (cwd path : Text) :
    (∃ fault, store.Stops inside fuel { cwd := '/' :: cwd } path fault ∧
      (cd fuel { cwd := '/' :: cwd } path).run execute store = (.error fault, store)) ∨
    ¬ store.Baseless { cwd := '/' :: cwd } path ∧
      ∃ result cwd', (cd fuel { cwd := '/' :: cwd } path).run execute store =
        (.ok (result, { cwd := '/' :: cwd' }), store) := by
  rcases readable.format_run root narrow fuel cwd path with ⟨fault, stops, format⟩ | ⟨based, body, format⟩
  · exact .inl ⟨fault, stops, Program.run_bind_error execute format _⟩
  · rw [cd, Program.run_bind_ok execute format,
      Program.run_bind_ok execute (readable.folderId_absolute_run root narrow cwd body)]
    cases led : store.view.leads 0 (components body) with
    | none => exact .inr ⟨based, false, cwd, rfl⟩
    | some d =>
      have here := readable.closed.leads root led
      have low := (readable.range here).1
      have known : d ≠ -1 := by omega
      simp only [Option.getD_some, known, if_false]
      rcases readable.absolutePath_run here fuel with ⟨text, run⟩ | ⟨short, run⟩
      · exact .inr ⟨based, true, text, Program.run_bind_ok execute run _⟩
      · exact .inl ⟨.outOfFuel, .outOfFuel here short, Program.run_bind_error execute run _⟩

theorem call_run (call : Call) (fuel : Nat) (cwd : Text) :
    (∃ fault, store.Stops inside fuel { cwd := '/' :: cwd } call.path fault ∧
      (call.program fuel { cwd := '/' :: cwd }).run execute store = (.error fault, store)) ∨
    ¬ store.Baseless { cwd := '/' :: cwd } call.path ∧
      ((∃ result cwd', (call.program fuel { cwd := '/' :: cwd }).run execute store =
        (.ok (result, { cwd := '/' :: cwd' }), store)) ∨
      ∃ kind parentId name, Placed inside parentId name ∧
        (call.program fuel { cwd := '/' :: cwd }).run execute store =
          (.ok (true, { cwd := '/' :: cwd }), (Kind.creation kind parentId name).made store)) := by
  rcases call_cases call with ⟨kind, path, rfl⟩ | ⟨path, rfl⟩
  · have same : (kind.call path).program fuel { cwd := '/' :: cwd } =
        creator kind fuel { cwd := '/' :: cwd } path >>= fun result =>
          pure (result, { cwd := '/' :: cwd }) := by
      cases kind <;> rfl
    rw [same, Kind.call_path]
    rcases readable.creator_run root narrow kind fuel cwd path with
      ⟨fault, stops, run⟩ | ⟨based, run | ⟨parentId, name, placed, run⟩⟩
    · exact .inl ⟨fault, stops, Program.run_bind_error execute run _⟩
    · exact .inr ⟨based, .inl ⟨false, cwd, Program.run_bind_ok execute run _⟩⟩
    · exact .inr ⟨based, .inr ⟨kind, parentId, name, placed, Program.run_bind_ok execute run _⟩⟩
  · exact (readable.cd_run root narrow fuel cwd path).imp_right (And.imp_right .inl)

end Calls

end Store.Readable

end RedisVfs
