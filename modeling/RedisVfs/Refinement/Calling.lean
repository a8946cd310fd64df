import RedisVfs.Refinement.Lookups
import RedisVfs.Refinement.Reading

set_option autoImplicit false

namespace RedisVfs

open CString

theorem parseLastName_code {parserState : VfsPathParserState} {d result : Int} {fullPath : Text}
    {answer : VfsPathParserState} {store after : Store}
    (ran : (parseLastName parserState d fullPath).run execute store = (.ok (result, answer), after)) :
    result = 0 := by
  unfold parseLastName at ran
  split at ran
  · obtain ⟨found, _, ran⟩ := (Reading.bind_ok_iff (reading_findObject _ _ _ _)).mp ran
    dsimp only at ran
    split at ran
    · cases ran
      rfl
    · split at ran
      · cases ran
        rfl
      · obtain ⟨parentId, _, ran⟩ := (Reading.bind_ok_iff (only_dirParent reads_gets _)).mp ran
        cases ran
        rfl
  · cases ran
    rfl

namespace Store

def upward (store : Store) (id : Int) : Except Fault (Text × Int) :=
  match (store.hashes (.folderInfo (unsigned id))).lookup .name with
  | none => .error .nilReply
  | some value =>
      .ok (unquoted value,
        (((store.hashes (.folderInfo (unsigned id))).lookup .parent).map strtol).getD (-1))

-- The climb from any folder number; the stored parents need not lead to the root.
def climb (store : Store) : Nat → Int → Text → Except Fault Text
  | fuel, id, output =>
      if id = 0 then .ok (output ++ ['/'])
      else
        match fuel with
        | 0 => .error .outOfFuel
        | fuel + 1 =>
            match store.upward id with
            | .error fault => .error fault
            | .ok (name, parent) => store.climb fuel parent ('/' :: name ++ output)

theorem upward_run (store : Store) {id : Int} (nonroot : id ≠ 0) {A : Type} (next : Text → Int → Prog A) :
    (getNonRootFolderName id >>= fun name => getParentIdById id >>= next name).run execute store =
      match store.upward id with
      | .error fault => (.error fault, store)
      | .ok (name, parent) => (next name parent).run execute store := by
  rw [getNonRootFolderName, if_neg (show ¬ id = ROOT_FOLDER_ID from nonroot), redisGetFolderName, upward,
    Program.run_bind,
    Program.run_bind, run_redisCommand]
  cases name : (store.hashes (.folderInfo (unsigned id))).lookup .name with
  | none =>
    simp only [execute, Redis.execute, name, dereference, Redis.Reply.str]
    rfl
  | some value =>
    cases parent : (store.hashes (.folderInfo (unsigned id))).lookup .parent <;>
      simp [execute, Redis.execute, name, parent, dereference, Redis.Reply.str, Program.run_bind,
        getParentIdById, redisGetFolderParentId]

theorem climbLoop_run (store : Store) (fuel : Nat) (id : Int) (output : Text) :
    (climbLoop fuel id output).run execute store = (store.climb fuel id output, store) := by
  induction fuel generalizing id output with
  | zero =>
    unfold climbLoop climb
    by_cases root : id = 0 <;> simp [root]
  | succ fuel ih =>
    unfold climbLoop climb
    by_cases root : id = 0
    · simp [root]
    · rw [if_neg root, if_neg root]
      refine (store.upward_run root _).trans ?_
      cases store.upward id with
      | error fault => rfl
      | ok above => exact ih _ _

theorem getAbsolutePath_run (store : Store) (fuel : Nat) (id : Int) :
    (getAbsolutePathFromFolderId fuel id).run execute store = (store.climb fuel id [], store) := by
  unfold getAbsolutePathFromFolderId
  by_cases root : id = ROOT_FOLDER_ID
  · subst root
    cases fuel <;> simp [climb, ROOT_FOLDER_ID]
  · rw [if_neg root]
    exact store.climbLoop_run fuel id []

theorem climb_head {store : Store} {fuel : Nat} {id : Int} {output text : Text}
    (absolute : output = [] ∨ output.head? = some '/')
    (climbed : store.climb fuel id output = .ok text) : text.head? = some '/' := by
  have root (same : output ++ ['/'] = text) : text.head? = some '/' := by
    rcases absolute with rfl | slash
    · rw [← same]; rfl
    · rw [← same, List.head?_append, slash]; rfl
  induction fuel generalizing id output with
  | zero =>
    unfold climb at climbed
    split at climbed
    · exact root (Except.ok.inj climbed)
    · simp at climbed
  | succ fuel ih =>
    unfold climb at climbed
    split at climbed
    · exact root (Except.ok.inj climbed)
    · dsimp only at climbed
      split at climbed
      · simp at climbed
      · exact ih (.inr rfl) climbed fun same => by rw [← same]; rfl

theorem climb_agree {store : Store} {fuel fuel' : Nat} {id : Int} {output text text' : Text}
    (climbed : store.climb fuel id output = .ok text)
    (climbed' : store.climb fuel' id output = .ok text') : text = text' := by
  induction fuel generalizing fuel' id output with
  | zero =>
    unfold climb at climbed climbed'
    split at climbed
    next root =>
      rw [if_pos root] at climbed'
      exact Except.ok.inj (climbed.symm.trans climbed')
    next => simp at climbed
  | succ fuel ih =>
    unfold climb at climbed climbed'
    split at climbed
    next root =>
      rw [if_pos root] at climbed'
      exact Except.ok.inj (climbed.symm.trans climbed')
    next nonroot =>
      rw [if_neg nonroot] at climbed'
      cases fuel' with
      | zero => simp at climbed'
      | succ fuel' =>
        dsimp only at climbed climbed'
        split at climbed
        next => simp at climbed
        next above =>
          rw [above] at climbed'
          exact ih climbed climbed'

theorem climb_not_thrown (store : Store) (fuel : Nat) (id : Int) (output message : Text) :
    store.climb fuel id output ≠ .error (.thrown message) := by
  induction fuel generalizing id output with
  | zero =>
    unfold climb
    split <;> simp
  | succ fuel ih =>
    unfold climb
    split
    · simp
    · dsimp only
      split
      next fault failed =>
        unfold upward at failed
        split at failed
        · cases failed
          simp
        · simp at failed
      next => exact ih _ _

section Calls

variable (store : Store)

def cwdId (context : FsContext) : Except Fault Int := ((getCwdId context).run execute store).1

def pathId (d : Int) (path : Text) : Except Fault Int := ((getDirIdFromPath d path).run execute store).1

def parsed (d : Int) (path : Text) : Except Fault (Int × VfsPathParserState) :=
  ((vfsParsePath initVfsPathParserState path path.length d).run execute store).1

theorem cwdId_run (context : FsContext) :
    (getCwdId context).run execute store = (store.cwdId context, store) :=
  Reading.run_eq (reading_dirIdFromPath _ _ _) store

theorem pathId_run (d : Int) (path : Text) :
    (getDirIdFromPath d path).run execute store = (store.pathId d path, store) :=
  Reading.run_eq (reading_dirIdFromPath _ _ _) store

theorem parsed_run (d : Int) (path : Text) :
    (vfsParsePath initVfsPathParserState path path.length d).run execute store =
      (store.parsed d path, store) :=
  Reading.run_eq (reading_parsePath _ _ _ _) store

def folderId (context : FsContext) (path : Text) : Except Fault Int :=
  match store.cwdId context with
  | .error fault => .error fault
  | .ok cwdId => store.pathId cwdId path

theorem folderId_run (context : FsContext) (path : Text) :
    (getFolderIdFromPath context path).run execute store = (store.folderId context path, store) := by
  have cwdRun := store.cwdId_run context
  rw [getFolderIdFromPath, folderId]
  cases walk : store.cwdId context with
  | error fault =>
    rw [walk] at cwdRun
    exact Program.run_bind_error execute cwdRun _
  | ok d =>
    rw [walk] at cwdRun
    rw [Program.run_bind_ok execute cwdRun]
    exact store.pathId_run d path

def format (fuel : Nat) (context : FsContext) (path : Text) : Except Fault Text :=
  if path.length = 0 then
    .error (.thrown ("Could not get parent of invalid path: ".toList ++ path ++ ['\n']))
  else if path.head? = some '/' then .ok path
  else
    match store.folderId context context.cwd with
    | .error fault => .error fault
    | .ok d =>
        if d = -1 then .error (.thrown "failed to get left side of expression".toList)
        else
          match store.climb fuel d [] with
          | .error fault => .error fault
          | .ok left => .ok (left ++ removeAnyPathPrefix path)

theorem format_run (fuel : Nat) (context : FsContext) (path : Text) :
    (formatToValidPath fuel context path).run execute store = (store.format fuel context path, store) := by
  unfold formatToValidPath getParentIdOfLeftSideOfExpression format
  by_cases empty : path.length = 0
  · rw [if_pos empty, if_pos empty]
    rfl
  · rw [if_neg empty, if_neg empty]
    by_cases absolute : path.head? = some '/'
    · cases path with
      | nil => simp at empty
      | cons c body =>
        have slash : c = '/' := by simpa using absolute
        subst slash
        have root : (getAbsolutePathFromFolderId fuel ROOT_FOLDER_ID).run execute store = (.ok ['/'], store) := rfl
        rw [if_pos absolute, if_pos absolute,
          Program.run_bind_ok execute (Program.run_pure execute ROOT_FOLDER_ID store),
          if_neg (by decide), Program.run_bind_ok execute root]
        rfl
    · have folder := store.folderId_run context context.cwd
      rw [if_neg absolute, if_neg absolute]
      cases walk : store.folderId context context.cwd with
      | error fault =>
        rw [walk] at folder
        exact Program.run_bind_error execute folder _
      | ok d =>
        rw [walk] at folder
        rw [Program.run_bind_ok execute folder]
        by_cases lost : d = -1
        · simp [lost]
        · have climbed := store.getAbsolutePath_run fuel d
          simp only [if_neg lost]
          cases climb : store.climb fuel d [] with
          | error fault =>
            rw [climb] at climbed
            exact Program.run_bind_error execute climbed _
          | ok left =>
            rw [climb] at climbed
            exact Program.run_bind_ok execute climbed _

@[simp] theorem format_bare (fuel : Nat) (context : FsContext) (body : Text) :
    store.format fuel context ('/' :: body) = .ok ('/' :: body) := by
  simp [format]

variable {store}

theorem format_ok {fuel : Nat} {context : FsContext} {path formatted : Text}
    (ok : store.format fuel context path = .ok formatted) :
    path.head? = some '/' ∧ formatted = path ∨ path ≠ [] ∧ path.head? ≠ some '/' ∧
      ∃ d left, store.folderId context context.cwd = .ok d ∧ d ≠ -1 ∧
        store.climb fuel d [] = .ok left ∧ formatted = left ++ removeAnyPathPrefix path := by
  unfold format at ok
  split at ok
  · simp at ok
  next nonempty =>
    split at ok
    next absolute => exact .inl ⟨absolute, (Except.ok.inj ok).symm⟩
    next relative =>
      split at ok
      · simp at ok
      next d walk =>
        split at ok
        · simp at ok
        next known =>
          split at ok
          · simp at ok
          next left climb =>
            exact .inr ⟨by simpa using nonempty, relative, d, left, walk, known, climb,
              (Except.ok.inj ok).symm⟩

theorem climbed_absolute {fuel : Nat} {id : Int} {text : Text} (climbed : store.climb fuel id [] = .ok text) :
    ∃ rest, text = '/' :: rest := by
  have head := climb_head (.inl rfl) climbed
  cases text with
  | nil => simp at head
  | cons c rest => exact ⟨rest, by simpa using head⟩

theorem format_absolute {fuel : Nat} {context : FsContext} {path formatted : Text}
    (ok : store.format fuel context path = .ok formatted) : ∃ body, formatted = '/' :: body := by
  rcases format_ok ok with ⟨absolute, rfl⟩ | ⟨-, -, d, left, -, -, climb, rfl⟩
  · cases formatted with
    | nil => simp at absolute
    | cons c body => exact ⟨body, by simpa using absolute⟩
  · obtain ⟨rest, rfl⟩ := climbed_absolute climb
    exact ⟨_, rfl⟩

theorem format_agree {fuel fuel' : Nat} {context : FsContext} {path formatted formatted' : Text}
    (ok : store.format fuel context path = .ok formatted)
    (ok' : store.format fuel' context path = .ok formatted') : formatted = formatted' := by
  rcases format_ok ok with ⟨absolute, rfl⟩ | ⟨nonempty, relative, d, left, walk, -, climb, rfl⟩
  · rcases format_ok ok' with ⟨-, rfl⟩ | ⟨-, relative, -⟩
    · rfl
    · exact absurd absolute relative
  · rcases format_ok ok' with ⟨absolute, -⟩ | ⟨-, -, d', left', walk', -, climb', rfl⟩
    · exact absurd absolute relative
    · cases Except.ok.inj (walk.symm.trans walk')
      rw [climb_agree climb climb']

theorem format_thrown {fuel fuel' : Nat} {context : FsContext} {path formatted message : Text}
    (threw : store.format fuel context path = .error (.thrown message)) :
    store.format fuel' context path ≠ .ok formatted := by
  intro ok
  unfold format at threw
  rcases format_ok ok with ⟨absolute, -⟩ | ⟨nonempty, relative, d, left, walk, known, -⟩
  · have nonempty : path.length ≠ 0 := by
      rintro empty
      simp [List.length_eq_zero_iff.mp empty] at absolute
    simp [nonempty, absolute] at threw
  · simp only [List.length_eq_zero_iff, nonempty, relative, walk, known, if_false] at threw
    split at threw
    next failed =>
      cases threw
      exact store.climb_not_thrown _ _ _ _ failed
    next => simp at threw

variable (store)

def placing (fuel : Nat) (context : FsContext) (path : Text) : Except Fault (Option (Int × Text)) :=
  match store.format fuel context path with
  | .error fault => .error fault
  | .ok formattedPath =>
      match store.cwdId context with
      | .error fault => .error fault
      | .ok cwdId =>
          match store.parsed cwdId formattedPath with
          | .error fault => .error fault
          | .ok (result, parserState) =>
              if result = -1 then .ok none
              else .ok (some (parserState.parentId, formattedPath.drop parserState.nameOffset))

def changing (fuel : Nat) (context : FsContext) (path : Text) : Except Fault (Option Text) :=
  match store.format fuel context path with
  | .error fault => .error fault
  | .ok formattedPath =>
      match store.folderId context formattedPath with
      | .error fault => .error fault
      | .ok d => if d = -1 then .ok none else (store.climb fuel d []).map some

end Calls

end Store

def Kind.call : Kind → Text → Call
  | .folder, path => .mkdir path
  | .file, path => .createFile path

@[simp] theorem Kind.call_path (kind : Kind) (path : Text) : (kind.call path).path = path := by
  cases kind <;> rfl

@[simp] theorem Kind.call_isCreation (kind : Kind) (path : Text) :
    (kind.call path).isCreation = true := by
  cases kind <;> rfl

theorem call_cases (call : Call) : (∃ kind path, call = Kind.call kind path) ∨ ∃ path, call = .cd path := by
  cases call with
  | mkdir path => exact .inl ⟨.folder, path, rfl⟩
  | createFile path => exact .inl ⟨.file, path, rfl⟩
  | cd path => exact .inr ⟨path, rfl⟩

theorem creation_cases {call : Call} (creation : call.isCreation) :
    ∃ kind path, call = Kind.call kind path :=
  (call_cases call).resolve_right (by rintro ⟨path, rfl⟩; simp [Call.isCreation] at creation)

def creator : Kind → Nat → FsContext → Text → Prog Bool
  | .folder => mkdir
  | .file => createFile

def inserter : Kind → Int → Text → Prog Int
  | .folder, parentId, name => vfsMkdir parentId name
  | .file, parentId, name =>
      vfsCreateFile parentId name 1 "none".toList "https://none.com".toList "http://none".toList

theorem creator_eq (kind : Kind) (fuel : Nat) (context : FsContext) (path : Text) :
    creator kind fuel context path = (do
      let formattedPath ← formatToValidPath fuel context path
      let cwdId ← getCwdId context
      let (result, parserState) ←
        vfsParsePath initVfsPathParserState formattedPath formattedPath.length cwdId
      if result = -1 then return false
      else
        let _ ← inserter kind parserState.parentId (formattedPath.drop parserState.nameOffset)
        return true) := by
  cases kind <;> rfl

theorem creator_program (kind : Kind) (fuel : Nat) (context : FsContext) (path : Text) :
    (kind.call path).program fuel context =
      (creator kind fuel context path >>= fun made => pure (made, context)) := by
  cases kind <;> rfl

namespace Store

variable (store : Store)

theorem create_run (kind : Kind) (fuel : Nat) (context : FsContext) (path : Text) :
    (creator kind fuel context path).run execute store =
      match store.placing fuel context path with
      | .error fault => (.error fault, store)
      | .ok none => (.ok false, store)
      | .ok (some (parentId, name)) => (inserter kind parentId name >>= fun _ => pure true).run execute store := by
  have formatRun := store.format_run fuel context path
  have cwdRun := store.cwdId_run context
  rw [creator_eq, placing]
  cases format : store.format fuel context path with
  | error fault =>
    rw [format] at formatRun
    exact Program.run_bind_error execute formatRun _
  | ok formatted =>
    rw [format] at formatRun
    rw [Program.run_bind_ok execute formatRun]
    cases walk : store.cwdId context with
    | error fault =>
      rw [walk] at cwdRun
      exact Program.run_bind_error execute cwdRun _
    | ok cwdId =>
      have parseRun := store.parsed_run cwdId formatted
      rw [walk] at cwdRun
      rw [Program.run_bind_ok execute cwdRun]
      simp only
      cases parse : store.parsed cwdId formatted with
      | error fault =>
        rw [parse] at parseRun
        exact Program.run_bind_error execute parseRun _
      | ok answer =>
        rw [parse] at parseRun
        rw [Program.run_bind_ok execute parseRun]
        by_cases failed : answer.1 = -1 <;> simp [failed]

theorem cd_run (fuel : Nat) (context : FsContext) (path : Text) :
    (cd fuel context path).run execute store =
      (match store.changing fuel context path with
        | .error fault => .error fault
        | .ok none => .ok (false, context)
        | .ok (some text) => .ok (true, { cwd := text }), store) := by
  have formatRun := store.format_run fuel context path
  rw [cd, changing]
  cases format : store.format fuel context path with
  | error fault =>
    rw [format] at formatRun
    exact Program.run_bind_error execute formatRun _
  | ok formatted =>
    have folderRun := store.folderId_run context formatted
    rw [format] at formatRun
    rw [Program.run_bind_ok execute formatRun]
    simp only
    cases walk : store.folderId context formatted with
    | error fault =>
      rw [walk] at folderRun
      exact Program.run_bind_error execute folderRun _
    | ok d =>
      rw [walk] at folderRun
      rw [Program.run_bind_ok execute folderRun]
      by_cases lost : d = -1
      · simp [lost]
      · have climbed := store.getAbsolutePath_run fuel d
        simp only [if_neg lost]
        cases climb : store.climb fuel d [] with
        | error fault =>
          rw [climb] at climbed
          exact Program.run_bind_error execute climbed _
        | ok text =>
          rw [climb] at climbed
          exact Program.run_bind_ok execute climbed _

variable {store}

theorem folderId_ok {context : FsContext} {path : Text} {id : Int} :
    store.folderId context path = .ok id ↔
      ∃ cwdId, store.cwdId context = .ok cwdId ∧ store.pathId cwdId path = .ok id := by
  unfold folderId
  cases store.cwdId context <;> simp

theorem changing_iff {fuel : Nat} {context : FsContext} {path text : Text} :
    store.changing fuel context path = .ok (some text) ↔
      ∃ formattedPath d, store.format fuel context path = .ok formattedPath ∧
        store.folderId context formattedPath = .ok d ∧ d ≠ -1 ∧ store.climb fuel d [] = .ok text := by
  constructor
  · intro changed
    unfold changing at changed
    split at changed
    · simp at changed
    next formattedPath format =>
      split at changed
      · simp at changed
      next d folder =>
        split at changed
        · simp at changed
        next known =>
          refine ⟨formattedPath, d, format, folder, known, ?_⟩
          cases climb : store.climb fuel d [] with
          | error fault => simp [climb, Except.map] at changed
          | ok left => simpa [climb, Except.map] using changed
  · rintro ⟨formattedPath, d, format, folder, known, climb⟩
    simp [changing, format, folder, known, climb, Except.map]

theorem changing_absolute {fuel : Nat} {context : FsContext} {path text : Text}
    (changed : store.changing fuel context path = .ok (some text)) : ∃ cwd, text = '/' :: cwd := by
  obtain ⟨_, _, _, _, _, climb⟩ := changing_iff.mp changed
  exact climbed_absolute climb

theorem parsed_code {d : Int} {path : Text} {result : Int} {parserState : VfsPathParserState}
    (parse : store.parsed d path = .ok (result, parserState)) : result = 0 ∨ result = -1 := by
  have ran : (vfsParsePath initVfsPathParserState path path.length d).run execute store =
      (.ok (result, parserState), store) := (store.parsed_run d path).trans (by rw [parse])
  unfold vfsParsePath at ran
  split at ran
  · cases ran
    exact .inr rfl
  · dsimp only at ran
    generalize (if path.head? = some '/' then ROOT_FOLDER_ID else d) = cwd at ran
    generalize (if path[path.length - 1]? = some '/' then path.length - 1 else path.length) = fixed at ran
    split at ran
    · cases ran
      exact .inl rfl
    · obtain ⟨tempId, _, ran⟩ := (Reading.bind_ok_iff (reading_dirIdFromPath _ _ _)).mp ran
      split at ran
      · cases ran
        exact .inr rfl
      · exact .inl (parseLastName_code ran)

theorem placing_iff {fuel : Nat} {context : FsContext} {path name : Text} {parentId : Int} :
    store.placing fuel context path = .ok (some (parentId, name)) ↔
      ∃ formattedPath cwdId parserState, store.format fuel context path = .ok formattedPath ∧
        store.cwdId context = .ok cwdId ∧ store.parsed cwdId formattedPath = .ok (0, parserState) ∧
          parserState.parentId = parentId ∧ formattedPath.drop parserState.nameOffset = name := by
  constructor
  · intro placed
    unfold placing at placed
    split at placed
    · simp at placed
    next formattedPath format =>
      split at placed
      · simp at placed
      next cwdId walk =>
        split at placed
        · simp at placed
        next result parserState parse =>
          split at placed
          · simp at placed
          next found =>
            obtain rfl := (parsed_code parse).resolve_right found
            have same : (parserState.parentId, formattedPath.drop parserState.nameOffset) =
                (parentId, name) := Option.some.inj (Except.ok.inj placed)
            exact ⟨formattedPath, cwdId, parserState, format, walk, parse, congrArg Prod.fst same,
              congrArg Prod.snd same⟩
  · rintro ⟨formattedPath, cwdId, parserState, format, walk, parse, rfl, rfl⟩
    simp [placing, format, walk, parse]

end Store

theorem State.parses_iff {state : State} {path formattedPath : Text} {parserState : VfsPathParserState} :
    state.Parses path formattedPath parserState ↔ ∃ fuel cwdId,
      state.store.format fuel state.context path = .ok formattedPath ∧
        state.store.cwdId state.context = .ok cwdId ∧
          state.store.parsed cwdId formattedPath = .ok (0, parserState) := by
  simp only [State.Parses, Store.format_run, Store.cwdId_run, Store.parsed_run, Prod.mk.injEq, and_true]

theorem State.Parses.unique {state : State} {path formattedPath formattedPath' : Text}
    {parserState parserState' : VfsPathParserState} (parses : state.Parses path formattedPath parserState)
    (parses' : state.Parses path formattedPath' parserState') :
    formattedPath = formattedPath' ∧ parserState = parserState' := by
  obtain ⟨_, cwdId, format, walk, parse⟩ := State.parses_iff.mp parses
  obtain ⟨_, cwdId', format', walk', parse'⟩ := State.parses_iff.mp parses'
  obtain rfl := Store.format_agree format format'
  cases Except.ok.inj (walk.symm.trans walk')
  exact ⟨rfl, congrArg Prod.snd (Except.ok.inj (parse.symm.trans parse'))⟩

theorem State.placing_iff {state : State} {path name : Text} {parentId : Int} :
    (∃ fuel, state.store.placing fuel state.context path = .ok (some (parentId, name))) ↔
      ∃ formattedPath parserState, state.Parses path formattedPath parserState ∧
        parserState.parentId = parentId ∧ formattedPath.drop parserState.nameOffset = name := by
  constructor
  · rintro ⟨fuel, placed⟩
    obtain ⟨formattedPath, cwdId, parserState, format, walk, parse, parent, rest⟩ :=
      Store.placing_iff.mp placed
    exact ⟨_, parserState, State.parses_iff.mpr ⟨fuel, cwdId, format, walk, parse⟩, parent, rest⟩
  · rintro ⟨formattedPath, parserState, parses, parent, rest⟩
    obtain ⟨fuel, cwdId, format, walk, parse⟩ := State.parses_iff.mp parses
    exact ⟨fuel, Store.placing_iff.mpr
      ⟨formattedPath, cwdId, parserState, format, walk, parse, parent, rest⟩⟩

theorem State.Parses.placing {state : State} {path formattedPath : Text} {parserState : VfsPathParserState}
    (parses : state.Parses path formattedPath parserState) (fuel : Nat) :
    state.store.placing fuel state.context path =
      (state.store.format fuel state.context path).map fun _ =>
        some (parserState.parentId, formattedPath.drop parserState.nameOffset) := by
  obtain ⟨fuel', cwdId, format, walk, parse⟩ := State.parses_iff.mp parses
  unfold Store.placing
  cases format' : state.store.format fuel state.context path with
  | error fault => rfl
  | ok formatted =>
    obtain rfl := Store.format_agree format format'
    simp [walk, parse, Except.map]

end RedisVfs
