import RedisVfs.Properties.KeptListings
import RedisVfs.Properties.TerminalInput

set_option autoImplicit false

namespace RedisVfs

open CString Directory Terminal

def Store.fatal (store : Store) (c : FsContext) : List Text → Option Terminal.Fault
  | [] => some .noWord
  | command :: path :: _ =>
      match commandToEnum command with
      | .command_cd | .command_mkdir | .command_mkfile =>
          if store.Baseless c path then some (.library (.thrown (baselessMessage path))) else none
      | .command_ls | .command_stat =>
          if store.Falls c path then some (.library .nilReply) else none
      | _ => none
  | _ => none

theorem run_library {A : Type} (program : RedisVfs.Prog A) (store : Store) :
    (library program).run execute store =
      ((program.run execute store).1.mapError .library, (program.run execute store).2) :=
  Program.run_mapFail execute _ program store

theorem library_ok {A : Type} {program : RedisVfs.Prog A} {store after : Store} {value : A}
    (ran : program.run execute store = (.ok value, after)) :
    (library program).run execute store = (.ok value, after) := by
  rw [run_library, ran]
  rfl

theorem library_error {A : Type} {program : RedisVfs.Prog A} {store after : Store} {fault : RedisVfs.Fault}
    (ran : program.run execute store = (.error fault, after)) :
    (library program).run execute store = (.error (.library fault), after) := by
  rw [run_library, ran]
  rfl

-- How the words of a line end: as they must, or with a context whose directory is absolute again.
inductive Ends (store : Store) (program : Terminal.Prog (Text × FsContext)) : Option Terminal.Fault → Prop
  | stops {fault : Terminal.Fault} (ran : program.run execute store = (.error fault, store)) :
      Ends store program (some fault)
  | returns {output cwd : Text} {after : Store}
      (ran : program.run execute store = (.ok (output, { cwd := '/' :: cwd }), after)) : Ends store program none

namespace Pruned

variable (pruned : Pruned) (small : pruned.tree.Small) {fuel : Nat} (cwd : Text) {path : Text}

include small

theorem narrowed : ∀ d : Int, (∃ id : Nat, d = id ∧ pruned.history.Linked id) → d < 2 ^ 31 := fun _ => narrow small

theorem ls_ends (nonempty : path ≠ []) :
    Ends pruned.store (do return ((← library (lsPrettyPrint { cwd := '/' :: cwd } path)) ++ ['\n'],
        { cwd := '/' :: cwd }))
      (if pruned.store.Falls { cwd := '/' :: cwd } path then some (.library .nilReply) else none) := by
  have folder := @Store.Readable.folderId_run pruned.store _ readable_linked root_linked (pruned.narrowed small)
    (adrift small) cwd path nonempty
  rcases pruned.store.folderAt_cases { cwd := '/' :: cwd } path with ⟨falls, stops⟩ | ⟨stays, d, answer⟩
  · rw [stops] at folder
    have files : (getFiles { cwd := '/' :: cwd } path).run execute pruned.store = (.error .nilReply, pruned.store) :=
      Program.run_bind_error execute folder _
    have stopped : (lsPrettyPrint { cwd := '/' :: cwd } path).run execute pruned.store =
      (.error .nilReply, pruned.store) := Program.run_bind_error execute files _
    rw [if_pos falls]
    exact .stops (Program.run_bind_error execute (library_error stopped) _)
  · rw [answer] at folder
    have printed := (pruned.shows d).lsPrettyPrint_run folder
    rw [if_neg stays]
    exact .returns (Program.run_bind_ok execute (library_ok printed) _)

theorem stat_ends (nonempty : path ≠ []) :
    Ends pruned.store (do return (describe (← library (stat { cwd := '/' :: cwd } path)), { cwd := '/' :: cwd }))
      (if pruned.store.Falls { cwd := '/' :: cwd } path then some (.library .nilReply) else none) := by
  have ran := @Store.Readable.stat_run pruned.store _ readable_linked root_linked (pruned.narrowed small)
    (adrift small) cwd path nonempty
  rcases pruned.store.statAt_cases { cwd := '/' :: cwd } path with ⟨falls, stops⟩ | ⟨stays, info, answer⟩
  · rw [stops] at ran
    rw [if_pos falls]
    exact .stops (Program.run_bind_error execute (library_error ran) _)
  · rw [answer] at ran
    rw [if_neg stays]
    exact .returns (Program.run_bind_ok execute (library_ok ran) _)

variable (enough : pruned.store.count ≤ fuel)

include enough

omit small in
theorem numbers_enough : ∀ d : Int, (∃ id : Nat, d = id ∧ pruned.history.Linked id) → d ≤ fuel := by
  rintro d ⟨id, rfl, linked⟩
  have bound := linked.le
  rw [pruned.count_store] at enough
  omega

theorem cd_ends :
    Ends pruned.store (do
        let (result, c) ← library (cd fuel { cwd := '/' :: cwd } path)
        if result then return (pwd c ++ ['\n'], c) else return ("invalid cd\n".toList, c))
      (if pruned.store.Baseless { cwd := '/' :: cwd } path then
        some (.library (.thrown (baselessMessage path))) else none) := by
  rcases readable_linked.cd_run root_linked (pruned.narrowed small) fuel cwd path with
    ⟨fault, stops, run⟩ | ⟨based, result, cwd', run⟩
  · obtain ⟨baseless, rfl⟩ := stops.baseless (pruned.numbers_enough enough)
    rw [if_pos baseless]
    exact .stops (Program.run_bind_error execute (library_error run) _)
  · rw [if_neg based]
    cases result with
    | true => exact .returns (Program.run_bind_ok execute (library_ok run) _)
    | false => exact .returns (Program.run_bind_ok execute (library_ok run) _)

theorem create_ends (kind : Kind) (failure : Text) :
    Ends pruned.store (do
        if ← library (creator kind fuel { cwd := '/' :: cwd } path) then return ([], { cwd := '/' :: cwd })
        else return (failure, { cwd := '/' :: cwd }))
      (if pruned.store.Baseless { cwd := '/' :: cwd } path then
        some (.library (.thrown (baselessMessage path))) else none) := by
  rcases readable_linked.creator_run root_linked (pruned.narrowed small) kind fuel cwd path with
    ⟨fault, stops, run⟩ | ⟨based, run | ⟨parentId, name, -, run⟩⟩
  · obtain ⟨baseless, rfl⟩ := stops.baseless (pruned.numbers_enough enough)
    rw [if_pos baseless]
    exact .stops (Program.run_bind_error execute (library_error run) _)
  · rw [if_neg based]
    exact .returns (Program.run_bind_ok execute (library_ok run) _)
  · rw [if_neg based]
    exact .returns (Program.run_bind_ok execute (library_ok run) _)

theorem command_ends {strs : List Text} (named : [] ∉ strs) :
    Ends pruned.store (handleCommand fuel { cwd := '/' :: cwd } strs)
      (pruned.store.fatal { cwd := '/' :: cwd } strs) := by
  cases strs with
  | nil => exact .stops rfl
  | cons command args =>
    have given : ∀ path rest, args = path :: rest → path ≠ [] := by
      rintro path rest rfl rfl
      exact named (List.mem_cons_of_mem _ List.mem_cons_self)
    have here : ¬ pruned.store.Falls { cwd := '/' :: cwd } ('/' :: cwd) := fun falls => falls.1.1 rfl
    cases sort : commandToEnum command with
    | command_cp =>
      rcases args with _ | ⟨source, _ | ⟨target, args⟩⟩ <;> simp only [handleCommand, Store.fatal, sort]
      all_goals exact .returns rfl
    | command_mv =>
      rcases args with _ | ⟨source, _ | ⟨target, args⟩⟩ <;> simp only [handleCommand, Store.fatal, sort]
      all_goals exact .returns rfl
    | command_pwd =>
      cases args <;> simp only [handleCommand, Store.fatal, sort]
      all_goals exact .returns rfl
    | command_invalid =>
      cases args <;> simp only [handleCommand, Store.fatal, sort]
      all_goals exact .returns rfl
    | command_cd =>
      cases args <;> simp only [handleCommand, Store.fatal, sort]
      · exact .returns rfl
      · exact pruned.cd_ends small cwd enough
    | command_mkdir =>
      cases args <;> simp only [handleCommand, Store.fatal, sort]
      · exact .returns rfl
      · exact pruned.create_ends small cwd enough .folder _
    | command_mkfile =>
      cases args <;> simp only [handleCommand, Store.fatal, sort]
      · exact .returns rfl
      · exact pruned.create_ends small cwd enough .file _
    | command_ls =>
      cases args with
      | nil =>
        have ends := pruned.ls_ends small cwd (List.cons_ne_nil '/' cwd)
        rw [if_neg here] at ends
        simpa only [handleCommand, Store.fatal, sort] using ends
      | cons path rest =>
        simp only [handleCommand, Store.fatal, sort]
        exact pruned.ls_ends small cwd (given path rest rfl)
    | command_stat =>
      cases args with
      | nil =>
        simp only [handleCommand, Store.fatal, sort]
        exact .returns rfl
      | cons path rest =>
        simp only [handleCommand, Store.fatal, sort]
        exact pruned.stat_ends small cwd (given path rest rfl)

end Pruned

section Kept

theorem reading_folder (id : Int) : Reading (redisGetFolder id) :=
  (only_folderName reads_gets id).bind fun _ => (reading_parentId id).bind fun _ => .pure _

theorem reading_file (id : Int) : Reading (redisGetFile id) :=
  (only_fileName reads_gets id).bind fun _ =>
    ((Program.Only.command trivial).bind fun reply => by cases reply.str <;> exact .pure _).bind fun _ => .pure _

theorem reading_lsPrettyPrint (context : FsContext) (path : Text) : Reading (lsPrettyPrint context path) := by
  have ids (key : Key) : Reading (do return (← redisCommand (.lrange key)).elements.map strtol) :=
    (Program.Only.command trivial).bind fun _ => .pure _
  refine ((reading_folderIdFromPath _ _).bind fun id => (ids _).bind fun _ => .mapM reading_file _).bind fun _ => ?_
  exact ((reading_folderIdFromPath _ _).bind fun id => (ids _).bind fun _ => .mapM reading_folder _).bind
    fun _ => .pure _

theorem reading_stat (context : FsContext) (path : Text) : Reading (stat context path) := by
  have found (fileId : Int) : Reading (do
      if fileId ≠ -1 then
        let name ← redisGetFileName fileId
        return { id := fileId, exists_ := true, type := some .DIR_ITEM_FILE, parentId := none, name }
      else
        let folderId ← getFolderIdFromPath context path
        if folderId = -1 then
          return { id := -1, exists_ := false, type := none, parentId := none, name := [] }
        else
          let name ← redisGetFolderName folderId
          return { id := folderId, exists_ := true, type := some .DIR_ITEM_FOLDER, parentId := none, name }
        : RedisVfs.Prog DirItemInfo) := by
    split
    · exact (only_fileName reads_gets fileId).bind fun _ => .pure _
    · refine (reading_folderIdFromPath _ _).bind fun folderId => ?_
      split
      · exact .pure _
      · exact (only_folderName reads_gets folderId).bind fun _ => .pure _
  unfold stat
  split
  · exact (reading_fileIdFromPath _ _).bind found
  · exact found (-1)

variable {store after : Store} {fuel : Nat} {c c' : FsContext} {output : Text}

theorem library_bind_ok {A B : Type} {program : RedisVfs.Prog A} {f : A → Terminal.Prog B} {value : B}
    (ran : (library program >>= f).run execute store = (.ok value, after)) :
    ∃ found between, program.run execute store = (.ok found, between) ∧
      (f found).run execute between = (.ok value, after) := by
  cases first : program.run execute store with
  | mk answer between =>
    cases answer with
    | error fault =>
      rw [Program.run_bind_error execute (library_error first)] at ran
      cases ran
    | ok found =>
      rw [Program.run_bind_ok execute (library_ok first)] at ran
      exact ⟨found, between, rfl, ran⟩

theorem looked_kept {A : Type} {program : RedisVfs.Prog A} (reading : Reading program) {describe : A → Text}
    (ran : (do return (describe (← library program), c) : Terminal.Prog (Text × FsContext)).run execute store =
      (.ok (output, c'), after)) : c' = c ∧ after = store := by
  obtain ⟨found, between, first, rest⟩ := library_bind_ok ran
  have kept := reading.run_store store
  rw [first] at kept
  cases rest
  exact ⟨rfl, kept⟩

theorem command_kept {strs : List Text}
    (ran : (handleCommand fuel c strs).run execute store = (.ok (output, c'), after)) :
    c' = c ∧ after = store ∨
      ∃ call result, (Call.program fuel c call).run execute store = (.ok (result, c'), after) := by
  have same {text : Text} (ran : (pure (text, c) : Terminal.Prog (Text × FsContext)).run execute store =
      (.ok (output, c'), after)) : c' = c ∧ after = store := by
    cases ran
    exact ⟨rfl, rfl⟩
  cases strs with
  | nil => cases ran
  | cons command args =>
    cases sort : commandToEnum command with
    | command_cp =>
      rcases args with _ | ⟨source, _ | ⟨target, args⟩⟩ <;> simp only [handleCommand, sort] at ran
      all_goals exact .inl (same ran)
    | command_mv =>
      rcases args with _ | ⟨source, _ | ⟨target, args⟩⟩ <;> simp only [handleCommand, sort] at ran
      all_goals exact .inl (same ran)
    | command_pwd =>
      simp only [handleCommand, sort] at ran
      exact .inl (same ran)
    | command_invalid =>
      simp only [handleCommand, sort] at ran
      exact .inl (same ran)
    | command_ls =>
      cases args <;> simp only [handleCommand, sort] at ran
      all_goals exact .inl (@looked_kept _ _ _ _ _ _ _ (reading_lsPrettyPrint _ _) (· ++ ['\n']) ran)
    | command_stat =>
      cases args <;> simp only [handleCommand, sort] at ran
      · exact .inl (same ran)
      · exact .inl (looked_kept (reading_stat _ _) ran)
    | command_cd =>
      cases args with
      | nil =>
        simp only [handleCommand, sort] at ran
        exact .inl (same ran)
      | cons path rest =>
        simp only [handleCommand, sort] at ran
        obtain ⟨⟨result, c''⟩, between, first, last⟩ := library_bind_ok ran
        refine .inr ⟨.cd path, result, ?_⟩
        cases result <;> cases last <;> exact first
    | command_mkdir =>
      cases args with
      | nil =>
        simp only [handleCommand, sort] at ran
        exact .inl (same ran)
      | cons path rest =>
        simp only [handleCommand, sort] at ran
        obtain ⟨result, between, first, last⟩ := library_bind_ok ran
        refine .inr ⟨.mkdir path, result, ?_⟩
        cases result <;> cases last <;> exact Program.run_bind_ok execute first _
    | command_mkfile =>
      cases args with
      | nil =>
        simp only [handleCommand, sort] at ran
        exact .inl (same ran)
      | cons path rest =>
        simp only [handleCommand, sort] at ran
        obtain ⟨result, between, first, last⟩ := library_bind_ok ran
        refine .inr ⟨.createFile path, result, ?_⟩
        cases result <;> cases last <;> exact Program.run_bind_ok execute first _

end Kept

namespace Terminal

def Console.line (console : Console) : Text :=
  (getline console.cin console.str).1.filter (· ≠ '\n')

def Console.words (console : Console) : List Text :=
  (Segments.words ' ' console.line ++ [Segments.rest ' ' console.line]).filter (· ≠ [])

theorem turn_eq (fuel : Nat) (console : Console) :
    turn fuel console = (do
      let (output, c) ← handleCommand fuel console.c console.words
      return ("\nCommand> ".toList ++ output, ⟨(getline console.cin console.str).2, console.line, c⟩)) := by
  have words : split ((getline console.cin console.str).1.filter (· ≠ '\n')) [' '] = some console.words :=
    split_words _ _
  rw [turn]
  simp only [handleLine, words]
  rfl

end Terminal

namespace Terminals

variable {ι : Type}

def sessions (terminals : Terminals ι) : Sessions ι :=
  ⟨terminals.store, fun terminal => (terminals.consoles terminal).c⟩

variable [DecidableEq ι] {terminals terminals' : Terminals ι}

theorem sessions_update (store : Store) (consoles : ι → Console) (terminal : ι) (console : Console) :
    (⟨store, Function.update consoles terminal console⟩ : Terminals ι).sessions =
      ⟨store, Function.update (fun other => (consoles other).c) terminal console.c⟩ := by
  refine congrArg (Sessions.mk store) (funext fun other => ?_)
  exact Function.apply_update (fun _ => Console.c) consoles terminal console other

theorem Step.sessions (step : Step terminals terminals') : Sessions.Run terminals.sessions terminals'.sessions := by
  cases step with
  | @start terminal input context store ran =>
    rw [sessions_update]
    exact .single (.start ran)
  | @turn terminal fuel output console store accepts ran =>
    rw [sessions_update]
    rw [turn_eq] at ran
    cases first : (handleCommand fuel (terminals.consoles terminal).c
        (terminals.consoles terminal).words).run execute terminals.store with
    | mk answer after =>
      cases answer with
      | error fault =>
        rw [Program.run_bind_error execute first] at ran
        cases ran
      | ok answer =>
        obtain ⟨output', c⟩ := answer
        rw [Program.run_bind_ok execute first] at ran
        cases ran
        rcases command_kept first with ⟨rfl, rfl⟩ | ⟨call, result, ran⟩
        · have kept := Function.update_eq_self terminal fun other => (terminals.consoles other).c
          simp only [kept]
          exact .refl
        · have called : RedisVfs.Step ⟨terminals.store, (terminals.consoles terminal).c⟩ call ⟨store, c⟩ :=
            @RedisVfs.Step.returned _ call fuel result _ _ accepts ran
          exact .single (@Sessions.Step.call ι _ terminals.sessions terminal call _ called)

theorem run_sessions (run : Run terminals terminals') : Sessions.Run terminals.sessions terminals'.sessions := by
  induction run with
  | refl => exact .refl
  | tail _ step ih => exact ih.trans step.sessions

-- A terminal that makes the folder "a" in its first turn, and in its second has no word to read.
def opened : Terminals Unit :=
  ⟨freshStore, fun _ => ⟨⟨"mkdir a\n".toList, false⟩, [], { cwd := ['/'] }⟩⟩

def turned : Terminals Unit :=
  ⟨((turn 0 (opened.consoles ())).run execute freshStore).2,
    fun _ => ⟨⟨[], false⟩, "mkdir a".toList, { cwd := ['/'] }⟩⟩

theorem step_turned : Step opened turned := by
  have ran : (turn 0 (opened.consoles ())).run execute opened.store =
      (.ok ("\nCommand> ".toList, turned.consoles ()), turned.store) := Prod.ext (by decide +kernel) rfl
  have step := @Step.turn Unit _ opened () 0 _ _ _ (by decide) ran
  have same : Function.update opened.consoles () (turned.consoles ()) = turned.consoles := funext fun _ => rfl
  rwa [same] at step

theorem run_sessions_turned : Sessions.Run opened.sessions turned.sessions := run_sessions (.single step_turned)

theorem lived_turned : turned.sessions.Lived := ⟨.empty, step_turned.sessions⟩

theorem turn_ends (lived : terminals.sessions.Lived) (terminal : ι) {fuel : Nat}
    (few : terminals.store.count ≤ 2 ^ 31) (enough : terminals.store.count ≤ fuel) :
    ∃ vec, split (terminals.consoles terminal).line [' '] = some vec ∧
      (∀ fault, terminals.store.fatal (terminals.consoles terminal).c vec = some fault →
        (turn fuel (terminals.consoles terminal)).run execute terminals.store = (.error fault, terminals.store)) ∧
      (terminals.store.fatal (terminals.consoles terminal).c vec = none →
        ∃ output console after, (turn fuel (terminals.consoles terminal)).run execute terminals.store =
          (.ok (output, console), after)) := by
  obtain ⟨pruned, holds⟩ := lived.represented
  obtain ⟨cwd, here⟩ := holds.contexts terminal
  have here : (terminals.consoles terminal).c = { cwd := '/' :: cwd } := here
  have same : terminals.store = pruned.store := holds.store
  refine ⟨(terminals.consoles terminal).words, split_words _ _, ?_⟩
  have named : [] ∉ (terminals.consoles terminal).words := fun member =>
    of_decide_eq_true (List.mem_filter.mp member).2 rfl
  rw [same] at few enough ⊢
  have ends := pruned.command_ends (Pruned.small_iff.mpr few) cwd enough named
  rw [turn_eq, here]
  constructor
  · intro fault fatal
    rw [fatal] at ends
    cases ends with
    | stops ran => exact Program.run_bind_error execute ran _
  · intro harmless
    rw [harmless] at ends
    cases ends with
    | returns ran => exact ⟨_, _, _, Program.run_bind_ok execute ran _⟩

theorem turn_ends_turned :
    ∃ vec, split (turned.consoles ()).line [' '] = some vec ∧
      (∀ fault, turned.store.fatal (turned.consoles ()).c vec = some fault →
        (turn 2 (turned.consoles ())).run execute turned.store = (.error fault, turned.store)) ∧
      (turned.store.fatal (turned.consoles ()).c vec = none →
        ∃ output console after, (turn 2 (turned.consoles ())).run execute turned.store =
          (.ok (output, console), after)) :=
  turn_ends lived_turned () (by decide +kernel) (by decide +kernel)

end Terminals

end RedisVfs
