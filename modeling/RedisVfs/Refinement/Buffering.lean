import RedisVfs.Refinement.Listing
import RedisVfs.Refinement.Skipping
import RedisVfs.Source.Buffers

set_option autoImplicit false

namespace RedisVfs

open CString

-- The call writes beyond the end of a buffer.
def Overflows {A : Type} (store : Store) (program : BufferProg A) : Prop :=
  (program.run execute store).1 = .error .overflow

namespace Buffered

variable {A : Type}

theorem plain_run {program : Prog A} {store store' : Store} {value : A}
    (ran : program.run execute store = (.ok value, store')) :
    (plain program).run execute store = (.ok value, store') := by
  rw [plain, Program.run_mapFail, ran]
  rfl

theorem write_run (bufferLength : Nat) (text : Text) (store : Store) :
    (write bufferLength text).run execute store =
      (if text.length < bufferLength then .ok text else .error .overflow, store) := by
  unfold write
  split <;> rfl

theorem bind_if {B : Type} {program : BufferProg A} {f : A → BufferProg B} {fits fits' : Prop}
    [Decidable fits] [Decidable fits'] {value : A} {value' : B} {store : Store}
    (first : program.run execute store = (if fits then .ok value else .error .overflow, store))
    (second : fits →
      (f value).run execute store = (if fits' then .ok value' else .error .overflow, store)) :
    (program >>= f).run execute store =
      (if fits ∧ fits' then .ok value' else .error .overflow, store) := by
  by_cases here : fits
  · rw [if_pos here] at first
    rw [Program.run_bind_ok execute first, second here]
    simp only [here, true_and]
  · rw [if_neg here] at first
    rw [Program.run_bind_error execute first, if_neg fun both => here both.1]

theorem overflows_iff {program : BufferProg A} {fits : Prop} [Decidable fits] {value : A} {store : Store}
    (run : program.run execute store = (if fits then .ok value else .error .overflow, store)) :
    Overflows store program ↔ ¬ fits := by
  rw [Overflows, run]
  by_cases here : fits
  · simp [here]
  · simp [here]

theorem append_loop_run {bufferLength : Nat} {add : Text → A → BufferProg Text} {line : A → Text}
    {fits : A → Prop} [DecidablePred fits] {values : List A} {store : Store}
    (each : ∀ value ∈ values, ∀ text, (add text value).run execute store =
      (if fits value ∧ (text ++ line value).length < bufferLength then .ok (text ++ line value)
        else .error .overflow, store)) :
    ∀ text, text.length < bufferLength → (values.foldlM add text).run execute store =
      (if (∀ value ∈ values, fits value) ∧ (text ++ values.flatMap line).length < bufferLength
        then .ok (text ++ values.flatMap line) else .error .overflow, store) := by
  induction values with
  | nil =>
    intro text room
    simp [room]
  | cons value values ih =>
    intro text room
    have first := each value List.mem_cons_self text
    have later := ih fun other member => each other (List.mem_cons_of_mem value member)
    rw [List.foldlM_cons]
    by_cases here : fits value ∧ (text ++ line value).length < bufferLength
    · rw [if_pos here] at first
      rw [Program.run_bind_ok execute first, later _ here.2]
      simp [here.1]
    · rw [if_neg here] at first
      rw [Program.run_bind_error execute first, if_neg]
      rintro ⟨all, total⟩
      refine here ⟨all value List.mem_cons_self, ?_⟩
      simp only [List.flatMap_cons, List.length_append] at total ⊢
      omega

end Buffered

def Store.PathFits (store : Store) (f : Int) (bufferLength : Nat) : Prop :=
  ∀ names g, store.Skips f names g →
    (names.flatMap ('/' :: ·)).length + (if g = 0 then 1 else 0) < bufferLength

section Climb

open Buffered

variable {store : Store} {f : Int} {bufferLength : Nat}

theorem buffered_folderName_any_run (store : Store) (id : Int) (bufferLength : Nat) :
    (Buffered.vfsGetFolderName id bufferLength).run execute store =
      (match store.folderName (unsigned id) with
        | some name => if name.length < bufferLength then .ok name else .error .overflow
        | none => .error (.stopped .nilReply), store) := by
  have run := vfsGetFolderName_any_run store id
  rw [Buffered.vfsGetFolderName]
  cases named : store.folderName (unsigned id) with
  | some name =>
    rw [named] at run
    rw [Program.run_bind_ok execute (plain_run run), write_run]
  | none =>
    rw [named] at run
    have stopped : (plain (RedisVfs.vfsGetFolderName id)).run execute store =
        (.error (.stopped .nilReply), store) := by
      rw [plain, Program.run_mapFail, run]
      rfl
    exact Program.run_bind_error execute stopped _

theorem dirPathLoop_turn {g : Int} {name value : Text} {output : Text} (fuel : Nat) (nonroot : g ≠ 0)
    (named : store.folderName (unsigned g) = some name)
    (parent : (store.hashes (.folderInfo (unsigned g))).lookup .parent = some value) :
    (Buffered.dirPathLoop bufferLength (fuel + 1) g output).run execute store =
      if ('/' :: name ++ output).length < bufferLength then
        (Buffered.dirPathLoop bufferLength fuel (strtol (value.drop 1)) ('/' :: name ++ output)).run
          execute store
      else (.error .overflow, store) := by
  have nameRun := buffered_folderName_any_run store g bufferLength
  simp only [named] at nameRun
  have strRun : (plain (redisCommand (.hget (.folderInfo (unsigned g)) .parent))).run execute store =
      (.ok (.string value), store) := plain_run (hget_run parent)
  rw [Buffered.dirPathLoop, if_neg nonroot]
  by_cases room : ('/' :: name ++ output).length < bufferLength
  · have short : name.length < bufferLength := by
      simp only [List.cons_append, List.length_cons, List.length_append] at room
      omega
    have written := write_run bufferLength ('/' :: name ++ output) store
    rw [if_pos short] at nameRun
    rw [if_pos room] at written ⊢
    rw [Program.run_bind_ok execute nameRun, Program.run_bind_ok execute written,
      Program.run_bind_ok execute written, Program.run_bind_ok execute strRun]
    rfl
  · rw [if_neg room]
    by_cases short : name.length < bufferLength
    · have written := write_run bufferLength ('/' :: name ++ output) store
      rw [if_pos short] at nameRun
      rw [if_neg room] at written
      rw [Program.run_bind_ok execute nameRun, Program.run_bind_error execute written]
    · rw [if_neg short] at nameRun
      rw [Program.run_bind_error execute nameRun]

theorem Store.Skips.overflows_or {names : List Text} {g : Int} (skips : store.Skips f names g) (fuel : Nat) :
    Overflows store (Buffered.vfsGetDirPathFromId (names.length + fuel) f bufferLength) ∨
      (names.flatMap ('/' :: ·)).length < bufferLength ∧
        (Buffered.vfsGetDirPathFromId (names.length + fuel) f bufferLength).run execute store =
          (Buffered.dirPathLoop bufferLength fuel g (names.flatMap ('/' :: ·))).run execute store := by
  induction skips generalizing fuel with
  | here =>
    have written := write_run bufferLength [] store
    by_cases room : 0 < bufferLength
    · rw [List.length_nil, if_pos room] at written
      refine .inr ⟨room, ?_⟩
      rw [Buffered.vfsGetDirPathFromId, Program.run_bind_ok execute written]
      simp
    · rw [List.length_nil, if_neg room] at written
      apply Or.inl
      rw [Overflows, Buffered.vfsGetDirPathFromId, Program.run_bind_error execute written]
  | @above g name value names below nonroot named parent ih =>
    rw [List.length_cons, Nat.add_assoc, Nat.add_comm 1]
    rcases ih (fuel + 1) with beyond | ⟨room, run⟩
    · exact .inl beyond
    · rw [dirPathLoop_turn fuel nonroot named parent] at run
      by_cases more : ('/' :: name ++ names.flatMap ('/' :: ·)).length < bufferLength
      · rw [if_pos more] at run
        rw [spelled_cons]
        exact .inr ⟨more, run⟩
      · rw [if_neg more] at run
        exact .inl (congrArg Prod.fst run)

theorem Store.PathFits.loop {names : List Text} {g : Int} (fits : store.PathFits f bufferLength)
    (whole : ∀ id name, store.folderName (unsigned id) = some name →
      ∃ value, (store.hashes (.folderInfo (unsigned id))).lookup .parent = some value)
    (skips : store.Skips f names g) (fuel : Nat) :
    ¬ Overflows store (Buffered.dirPathLoop bufferLength fuel g (names.flatMap ('/' :: ·))) := by
  have atRoot {names : List Text} (skips : store.Skips f names 0) (fuel : Nat) :
      ¬ Overflows store (Buffered.dirPathLoop bufferLength fuel 0 (names.flatMap ('/' :: ·))) := by
    have room := fits names 0 skips
    have written := write_run bufferLength (names.flatMap ('/' :: ·) ++ ['/']) store
    rw [if_pos rfl] at room
    rw [if_pos (by simpa using room)] at written
    cases fuel <;> simp [Overflows, Buffered.dirPathLoop, written]
  induction fuel generalizing names g with
  | zero =>
    by_cases root : g = 0
    · exact root ▸ atRoot (root ▸ skips) 0
    · simp [Overflows, Buffered.dirPathLoop, root]
  | succ fuel ih =>
    by_cases root : g = 0
    · exact root ▸ atRoot (root ▸ skips) (fuel + 1)
    · cases named : store.folderName (unsigned g) with
      | none =>
        have nameRun := buffered_folderName_any_run store g bufferLength
        simp only [named] at nameRun
        rw [Overflows, Buffered.dirPathLoop, if_neg root, Program.run_bind_error execute nameRun]
        simp
      | some name =>
        obtain ⟨value, parent⟩ := whole g name named
        have higher := skips.above root named parent
        have room := fits _ _ higher
        rw [spelled_cons] at room
        rw [Overflows, dirPathLoop_turn fuel root named parent, if_pos (by omega), ← spelled_cons]
        exact ih higher

end Climb

namespace Buffered

theorem name_run {program : Prog Text} {name : Text} {store : Store}
    (ran : program.run execute store = (.ok name, store)) (bufferLength : Nat) :
    (do write bufferLength (← plain program)).run execute store =
      (if name.length < bufferLength then .ok name else .error .overflow, store) := by
  rw [Program.run_bind_ok execute (plain_run ran)]
  exact write_run _ _ _

theorem fileName_run {id : Int} {name : Text} {store : Store}
    (ran : (RedisVfs.vfsGetFileName id).run execute store = (.ok name, store)) (bufferLength : Nat) :
    (vfsGetFileName id bufferLength).run execute store =
      (if name.length < bufferLength then .ok name else .error .overflow, store) := name_run ran bufferLength

theorem folderName_run {id : Int} {name : Text} {store : Store}
    (ran : (RedisVfs.vfsGetFolderName id).run execute store = (.ok name, store)) (bufferLength : Nat) :
    (vfsGetFolderName id bufferLength).run execute store =
      (if name.length < bufferLength then .ok name else .error .overflow, store) := name_run ran bufferLength

theorem guards_write (bufferLength : Nat) (text : Text) :
    Program.Guards BufferFault.overflow .stopped (write bufferLength text) (pure text : Prog Text) := by
  unfold write
  split
  · exact .done text
  · exact .stops _

theorem guards_plain {A : Type} (program : Prog A) :
    Program.Guards BufferFault.overflow .stopped (plain program) program := .mapFail program

theorem guards_name (program : Prog Text) (bufferLength : Nat) :
    Program.Guards BufferFault.overflow .stopped (do write bufferLength (← plain program)) program := by
  have guards := (guards_plain program).bind (guards_write bufferLength)
  rwa [bind_pure] at guards

theorem guards_findFileLoop (fileName : Text) (length : Nat) (matchId : Int) (elements : List Text) :
    Program.Guards BufferFault.overflow .stopped (findFileLoop fileName length matchId elements)
      (RedisVfs.findFileLoop fileName length matchId elements) := by
  induction elements generalizing matchId with
  | nil => exact .done matchId
  | cons element elements ih => exact (guards_name _ _).bind fun name => ih _

theorem guards_findFile (d : Int) (fileName : Text) (length : Nat) :
    Program.Guards BufferFault.overflow .stopped (vfsFindFileNameInDir d fileName length)
      (RedisVfs.vfsFindFileNameInDir d fileName length) :=
  (guards_plain _).bind fun _ => guards_findFileLoop _ _ _ _

theorem guards_findDirLoop (dirName : Text) (length : Nat) (elements : List Text) :
    Program.Guards BufferFault.overflow .stopped (findDirLoop dirName length elements)
      (RedisVfs.findDirLoop dirName length elements) := by
  induction elements with
  | nil => exact .done (-1)
  | cons element elements ih =>
    refine (guards_name _ _).bind fun name => ?_
    split
    · exact .done _
    · exact ih

theorem guards_findDir (d : Int) (dirName : Text) (length : Nat) :
    Program.Guards BufferFault.overflow .stopped (vfsFindDirNameInDir d dirName length)
      (RedisVfs.vfsFindDirNameInDir d dirName length) := by
  unfold vfsFindDirNameInDir RedisVfs.vfsFindDirNameInDir
  split
  · exact .done d
  · split
    · exact guards_plain _
    · exact (guards_plain _).bind fun _ => guards_findDirLoop _ _ _

-- A lookup that stays inside its buffers answers as one that has no buffers.
theorem inside_run {A : Type} {guarded : BufferProg A} {program : Prog A} {store : Store}
    (guards : Program.Guards BufferFault.overflow .stopped guarded program) (inside : ¬ Overflows store guarded) :
    guarded.run execute store =
      ((program.run execute store).1.mapError .stopped, (program.run execute store).2) :=
  (guards.run execute store).resolve_left inside

theorem unixLine_length {mode : Text} (ten : mode.length = 10) (name : Text) :
    (unixLine mode 1 name).length = 53 + name.length := by
  have size : ((printLu 1).leftpad 10 ' ').length = 10 := by decide
  simp only [unixLine, List.length_append, ten, size]
  have between : "   1 linux linux ".toList.length = 17 := rfl
  have date : " Jan  1  1980 ".toList.length = 14 := rfl
  have ending : "\r\n".toList.length = 2 := rfl
  omega

end Buffered

namespace History

variable (history : History)

def Short (ids : List Nat) : Prop := ∀ id ∈ ids, (history.name id).length < Buffered.MAX_FILENAME_SIZE

instance (ids : List Nat) : Decidable (history.Short ids) := inferInstanceAs (Decidable (∀ _ ∈ _, _))

def lsLines (ids : List Nat) : List Text := ids.map fun id => "ls: ".toList ++ history.name id ++ ['\n']

def unixLines (mode : Text) (ids : List Nat) : Text := ids.flatMap fun id => unixLine mode 1 (history.name id)

theorem unixLines_length {mode : Text} (ten : mode.length = 10) (ids : List Nat) :
    (history.unixLines mode ids).length = (ids.map fun id => 53 + (history.name id).length).sum := by
  rw [unixLines, List.length_flatMap]
  simp only [Buffered.unixLine_length ten]

end History

namespace Store

open Buffered

def childNames (store : Store) (d : Int) : List (Option Text) :=
  (store.folders d).map store.folderName ++ (store.files d).map store.fileName

def listingSize (store : Store) (d : Int) : Nat :=
  ((store.childNames d).map fun name => 53 + (name.getD []).length).sum

def ListingFits (store : Store) (d : Int) : Prop :=
  (∀ name, some name ∈ store.childNames (unsigned d) → name.length < MAX_FILENAME_SIZE) ∧
    store.listingSize (unsigned d) < LINE_SIZE

def NamesFit (store : Store) : Prop :=
  ∀ (d : Int) (name : Text), some name ∈ store.childNames d → name.length < MAX_FILENAME_SIZE

-- The lookups in their buffers answer what the lookups without any do.
structure LooksUp (store : Store) : Prop where
  findFile : ∀ d fileName length, (Buffered.vfsFindFileNameInDir d fileName length).run execute store =
    (((vfsFindFileNameInDir d fileName length).run execute store).1.mapError .stopped,
      ((vfsFindFileNameInDir d fileName length).run execute store).2)
  findDir : ∀ d dirName length, (Buffered.vfsFindDirNameInDir d dirName length).run execute store =
    (((vfsFindDirNameInDir d dirName length).run execute store).1.mapError .stopped,
      ((vfsFindDirNameInDir d dirName length).run execute store).2)

end Store

namespace Store.Shows

open Buffered

variable {store : Store} {history : History} {d : Int} {folders files : List Nat}
  (shows : store.Shows history d folders files)

theorem findFileLoop_overflows {ids : List Nat} (numbers : ∀ id ∈ ids, strtol (decimal id) = id)
    (names : ∀ id ∈ ids, (vfsGetFileName id).run execute store = (.ok (history.name id), store))
    (text : Text) (length : Nat) (matchId : Int) :
    Overflows store (Buffered.findFileLoop text length matchId (ids.map decimal)) ↔ ¬ history.Short ids := by
  induction ids generalizing matchId with
  | nil => simp [Overflows, Buffered.findFileLoop, History.Short]
  | cons id ids ih =>
    have nameRun := Buffered.fileName_run (names id List.mem_cons_self) MAX_FILENAME_SIZE
    have later := ih (fun other member => numbers other (List.mem_cons_of_mem _ member))
      fun other member => names other (List.mem_cons_of_mem _ member)
    rw [Overflows, List.map_cons, Buffered.findFileLoop, numbers id List.mem_cons_self]
    by_cases fits : (history.name id).length < MAX_FILENAME_SIZE
    · rw [if_pos fits] at nameRun
      rw [Program.run_bind_ok execute nameRun]
      refine (later _).trans ?_
      simp [History.Short, fits]
    · rw [if_neg fits] at nameRun
      rw [Program.run_bind_error execute nameRun]
      simp [History.Short, fits]

theorem findDirLoop_inside {ids : List Nat} (numbers : ∀ id ∈ ids, strtol (decimal id) = id)
    (names : ∀ id ∈ ids, (vfsGetFolderName id).run execute store = (.ok (history.name id), store))
    (text : Text) (length : Nat) (short : history.Short ids) :
    ¬ Overflows store (Buffered.findDirLoop text length (ids.map decimal)) := by
  induction ids with
  | nil => simp [Overflows, Buffered.findDirLoop]
  | cons id ids ih =>
    have nameRun := Buffered.folderName_run (names id List.mem_cons_self) MAX_FILENAME_SIZE
    rw [if_pos (short id List.mem_cons_self)] at nameRun
    rw [Overflows, List.map_cons, Buffered.findDirLoop, numbers id List.mem_cons_self,
      Program.run_bind_ok execute nameRun]
    split
    · simp
    · exact ih (fun other member => numbers other (List.mem_cons_of_mem _ member))
        (fun other member => names other (List.mem_cons_of_mem _ member))
        fun other member => short other (List.mem_cons_of_mem _ member)

include shows

theorem findFile_overflows (fileName : Text) (length : Nat) :
    Overflows store (Buffered.vfsFindFileNameInDir d fileName length) ↔ ¬ history.Short files := by
  rw [Overflows, Buffered.vfsFindFileNameInDir, Program.run_bind_ok execute (plain_run shows.lrange_files_run)]
  exact findFileLoop_overflows shows.fileNumber shows.fileName _ _ _

theorem findDir_inside (dirName : Text) (length : Nat) (short : history.Short folders) :
    ¬ Overflows store (Buffered.vfsFindDirNameInDir d dirName length) := by
  unfold Overflows Buffered.vfsFindDirNameInDir
  split
  · simp
  · split
    · rw [plain, Program.run_mapFail]
      cases ((vfsGetDirParent d).run execute store).1 <;> simp [Except.mapError]
    · rw [Program.run_bind_ok execute (plain_run shows.lrange_folders_run)]
      exact findDirLoop_inside shows.folderNumber shows.folderName _ _ short

omit shows in
theorem names_run {ids : List Nat} {getName : Int → BufferProg Text}
    (numbers : ∀ id ∈ ids, strtol (decimal id) = id)
    (each : ∀ id ∈ ids, (getName id).run execute store =
      (if (history.name id).length < MAX_FILENAME_SIZE then .ok (history.name id) else .error .overflow, store)) :
    ((ids.map decimal).mapM fun element => do
        let name ← getName (strtol element)
        return "ls: ".toList ++ name ++ ['\n'] : BufferProg (List Text)).run execute store =
      (if history.Short ids then .ok (history.lsLines ids) else .error .overflow, store) := by
  rw [List.mapM_map]
  refine Program.run_mapM_if execute fun id member => ?_
  have nameRun := each id member
  simp only [Function.comp, numbers id member]
  by_cases fits : (history.name id).length < MAX_FILENAME_SIZE
  · rw [if_pos fits] at nameRun ⊢
    exact Program.run_bind_ok execute nameRun _
  · rw [if_neg fits] at nameRun ⊢
    exact Program.run_bind_error execute nameRun _

theorem vfsLs_run :
    (Buffered.vfsLs d).run execute store =
      (if history.Short folders ∧ history.Short files then .ok (history.lsLines folders ++ history.lsLines files)
      else .error .overflow, store) := by
  have foldersRun := @names_run store history folders (Buffered.vfsGetFolderName · MAX_FILENAME_SIZE)
    shows.folderNumber fun id member => Buffered.folderName_run (shows.folderName id member) _
  have filesRun := @names_run store history files (Buffered.vfsGetFileName · MAX_FILENAME_SIZE)
    shows.fileNumber fun id member => Buffered.fileName_run (shows.fileName id member) _
  rw [Buffered.vfsLs, Program.run_bind_ok execute (plain_run shows.lrange_folders_run)]
  refine bind_if foldersRun fun _ => ?_
  rw [Program.run_bind_ok execute (plain_run shows.lrange_files_run)]
  by_cases short : history.Short files
  · rw [if_pos short] at filesRun ⊢
    exact Program.run_bind_ok execute filesRun _
  · rw [if_neg short] at filesRun ⊢
    exact Program.run_bind_error execute filesRun _

theorem folderLine_run (id : Nat) (member : id ∈ folders) (line : Text) :
    (folderLine line (decimal id)).run execute store =
      (if (history.name id).length < MAX_FILENAME_SIZE ∧
          (line ++ unixLine "drwxrwxr-x".toList 1 (history.name id)).length < LINE_SIZE then
        .ok (line ++ unixLine "drwxrwxr-x".toList 1 (history.name id))
      else .error .overflow, store) := by
  rw [folderLine, shows.folderNumber id member]
  exact bind_if (Buffered.folderName_run (shows.folderName id member) _) fun _ => write_run _ _ _

theorem fileLine_run (id : Nat) (member : id ∈ files) (line : Text) :
    (fileLine line (decimal id)).run execute store =
      (if (history.name id).length < MAX_FILENAME_SIZE ∧
          (line ++ unixLine "-rwxrwxr-x".toList 1 (history.name id)).length < LINE_SIZE then
        .ok (line ++ unixLine "-rwxrwxr-x".toList 1 (history.name id))
      else .error .overflow, store) := by
  rw [fileLine, shows.fileNumber id member]
  refine bind_if (Buffered.fileName_run (shows.fileName id member) _) fun _ => ?_
  rw [Program.run_bind_ok execute (plain_run (shows.fileSize id member))]
  exact write_run _ _ _

theorem vfsListUnixStyle_run :
    (Buffered.vfsListUnixStyle d).run execute store =
      (if (history.Short folders ∧ (history.unixLines "drwxrwxr-x".toList folders).length < LINE_SIZE) ∧
          history.Short files ∧ (history.unixLines "drwxrwxr-x".toList folders ++
            history.unixLines "-rwxrwxr-x".toList files).length < LINE_SIZE then
        .ok (history.unixLines "drwxrwxr-x".toList folders ++ history.unixLines "-rwxrwxr-x".toList files)
      else .error .overflow, store) := by
  have foldersRun := append_loop_run shows.folderLine_run [] (show 0 < LINE_SIZE by decide)
  have filesRun := append_loop_run shows.fileLine_run (history.unixLines "drwxrwxr-x".toList folders)
  rw [Buffered.vfsListUnixStyle, Program.run_bind_ok execute (plain_run shows.lrange_folders_run)]
  simp only [Redis.Reply.elements, List.foldlM_map]
  refine bind_if foldersRun fun room => ?_
  rw [Program.run_bind_ok execute (plain_run shows.lrange_files_run)]
  simp only [List.foldlM_map]
  exact filesRun room.2

theorem childNames_eq : store.childNames (unsigned d) = ((folders ++ files).map history.name).map some := by
  have folderNames : (store.folders (unsigned d)).map store.folderName =
      (folders.map history.name).map some := by
    rw [Store.folders, shows.folderList, shows.folderIds, List.map_map, List.map_map]
    exact List.map_congr_left shows.folderNamed
  have fileNames : (store.files (unsigned d)).map store.fileName = (files.map history.name).map some := by
    rw [Store.files, shows.fileList, shows.fileIds, List.map_map, List.map_map]
    exact List.map_congr_left shows.fileNamed
  rw [Store.childNames, folderNames, fileNames, List.map_append, List.map_append]

theorem short_iff :
    (∀ name, some name ∈ store.childNames (unsigned d) → name.length < MAX_FILENAME_SIZE) ↔
      history.Short folders ∧ history.Short files := by
  rw [shows.childNames_eq]
  simp [History.Short, or_imp, forall_and]

theorem listingSize_eq : store.listingSize (unsigned d) =
    (history.unixLines "drwxrwxr-x".toList folders ++ history.unixLines "-rwxrwxr-x".toList files).length := by
  rw [List.length_append, history.unixLines_length rfl, history.unixLines_length rfl, Store.listingSize,
    shows.childNames_eq, List.map_map, List.map_map, List.map_append, List.sum_append]
  rfl

theorem vfsLs_inside : ¬ Overflows store (Buffered.vfsLs d) ↔ history.Short folders ∧ history.Short files := by
  rw [overflows_iff shows.vfsLs_run, not_not]

theorem vfsListUnixStyle_inside : ¬ Overflows store (Buffered.vfsListUnixStyle d) ↔ store.ListingFits d := by
  rw [overflows_iff shows.vfsListUnixStyle_run, not_not, Store.ListingFits, shows.short_iff, shows.listingSize_eq]
  constructor
  · exact fun ⟨⟨folders, _⟩, files, total⟩ => ⟨⟨folders, files⟩, total⟩
  · rintro ⟨⟨folders, files⟩, total⟩
    refine ⟨⟨folders, ?_⟩, files, total⟩
    rw [List.length_append] at total
    omega

omit shows in
theorem looksUp {folders files : Int → List Nat} (shows : ∀ d, store.Shows history d (folders d) (files d))
    (fit : store.NamesFit) : store.LooksUp := by
  have short (d : Int) := (shows d).short_iff.mp (fit (unsigned d))
  refine ⟨fun d fileName length => ?_, fun d dirName length => ?_⟩
  · refine Buffered.inside_run (Buffered.guards_findFile d fileName length) ?_
    rw [(shows d).findFile_overflows]
    exact not_not.mpr (short d).2
  · exact Buffered.inside_run (Buffered.guards_findDir d dirName length)
      ((shows d).findDir_inside dirName length (short d).1)

end Store.Shows

namespace Tree

open Buffered

variable (tree : Tree)

theorem buffered_dirPath_iff (f : Int) (bufferLength : Nat) :
    (∀ fuel, ¬ Overflows tree.store (Buffered.vfsGetDirPathFromId fuel f bufferLength)) ↔
      tree.store.PathFits f bufferLength := by
  constructor
  · intro never names g skips
    rcases skips.overflows_or 0 with beyond | ⟨room, run⟩
    · exact absurd beyond (never _)
    · split
      next root =>
        subst root
        have ended := never (names.length + 0)
        have written := write_run bufferLength (names.flatMap ('/' :: ·) ++ ['/']) tree.store
        rw [Overflows, run, Buffered.dirPathLoop, if_pos rfl, written] at ended
        by_contra long
        rw [if_neg (by simpa using long)] at ended
        exact ended rfl
      next => exact room
  · intro fits fuel
    have room : 0 < bufferLength := Nat.zero_lt_of_lt (fits [] f .here)
    have written := write_run bufferLength [] tree.store
    rw [List.length_nil, if_pos room] at written
    rw [Overflows, Buffered.vfsGetDirPathFromId, Program.run_bind_ok execute written]
    refine fits.loop (fun id name named => ?_) .here fuel
    rw [tree.folder_held (tree.folder_of_name named)]
    exact ⟨_, folderHash_parent _ _⟩

end Tree

end RedisVfs
