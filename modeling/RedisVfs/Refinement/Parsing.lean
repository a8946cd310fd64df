import RedisVfs.Refinement.Resolving
import RedisVfs.Tree.Paths

set_option autoImplicit false

namespace RedisVfs

open CString Directory

-- Every folder that a path leads to, read as a folder's or split at its last name, is of a kind.
structure PathWithin {A : Type} (view : View A) (P : A → Prop) (base : A) (path : Text) : Prop where
  walk : view.Within P base (components (path.drop (pathLead path).length))
  parse : ParsesWithin view P base path

theorem pathWithin_iff {A B : Type} {f : A → B} {P : A → Prop} {small : View A} {large : View B}
    (embeds : View.Embeds f P small large) {Q : B → Prop} {R : A → Prop}
    (same : ∀ e, P e → (Q (f e) ↔ R e)) {base : A} (inside : P base) (path : Text) :
    PathWithin large Q (f base) path ↔ PathWithin small R base path :=
  ⟨fun ⟨walk, parse⟩ =>
      ⟨(embeds.within_iff same inside).mp walk, (parsesWithin_iff embeds same inside path).mp parse⟩,
    fun ⟨walk, parse⟩ =>
      ⟨(embeds.within_iff same inside).mpr walk, (parsesWithin_iff embeds same inside path).mpr parse⟩⟩

namespace Tree

variable (tree : Tree)

theorem dirId_any_run (d : Int) (path : Text) :
    (vfsGetDirIdFromPath d path path.length).run execute tree.store =
      (tree.wander (origin d path) (pathWords path), tree.store) := by
  have free := Segments.words_free '/' (path.drop (pathLead path).length)
  have restFree := Segments.rest_free '/' (path.drop (pathLead path).length)
  have whole := Segments.unite_words_rest '/' (path.drop (pathLead path).length)
  have size := congrArg List.length whole
  have run (start : Int) := tree.walkLoop_any_run initVfsPathParserState start free restFree []
  rw [List.length_append] at size
  rw [List.append_nil, whole, size] at run
  cases path with
  | nil => exact run d
  | cons c path =>
    by_cases slash : c = '/'
    · subst slash
      exact run 0
    · have lead : (pathLead (c :: path)).length = 0 := by simp [pathLead, slash, trail]
      have start : origin d (c :: path) = d := by simp [origin, slash]
      have plain := run d
      rw [lead, List.drop_zero] at plain
      rw [start, pathWords, lead, List.drop_zero, vfsGetDirIdFromPath.eq_def]
      split
      next same => exact absurd (List.cons.inj same).1 slash
      next => exact plain

theorem origin_linked {d : Nat} (linked : tree.history.Linked d) (path : Text) :
    ∃ start : Nat, origin d path = start ∧ tree.history.Linked start := by
  by_cases absolute : path.head? = some '/'
  · exact ⟨0, by simp [origin, absolute], .root⟩
  · exact ⟨d, by simp [origin, absolute], linked⟩

theorem dirId_run {d start : Nat} {path : Text} (from_ : origin d path = start)
    (linked : tree.history.Linked start)
    (within : tree.history.view.Within (· < 2 ^ 31) start (pathWords path)) :
    (vfsGetDirIdFromPath d path path.length).run execute tree.store =
      (.ok (asId (tree.history.walk start (pathWords path))), tree.store) := by
  rw [tree.dirId_any_run d path, from_, tree.wander_linked linked within]

theorem getDirId_any_run (d : Int) {path : Text} (nonempty : path ≠ []) :
    (getDirIdFromPath d path).run execute tree.store =
      (tree.wander (origin d path) (components (path.drop (pathLead path).length)), tree.store) := by
  obtain ⟨start, words⟩ := pathWords_closed nonempty d
  rw [getDirIdFromPath]
  exact (tree.dirId_any_run d _).trans (by rw [start, words])

theorem getDirId_absolute_run (cwd : Int) (body : Text) :
    (getDirIdFromPath cwd ('/' :: body)).run execute tree.store =
      (tree.wander 0 (components body), tree.store) :=
  tree.getDirId_any_run cwd (by simp)

theorem getDirIdFromPath_absolute (cwd : Int) {body : Text}
    (within : tree.history.view.Within (· < 2 ^ 31) 0 (components body)) :
    (getDirIdFromPath cwd ('/' :: body)).run execute tree.store =
      (.ok (asId (tree.history.walk 0 (components body))), tree.store) := by
  rw [tree.getDirId_absolute_run]
  exact congrArg (·, tree.store) (tree.wander_linked .root within)

end Tree

theorem scanBack_name (path : Text) (i start length : Nat)
    (name : ∀ k < length, path[start + k]? ≠ some '/')
    (before : start = 0 ∨ path[start - 1]? = some '/') :
    scanBack path i (start + length) = (i + length, start) := by
  induction length generalizing i with
  | zero =>
    rcases before with rfl | slash
    · rfl
    · cases start with
      | zero => rfl
      | succ start =>
        rw [Nat.add_zero, scanBack, if_pos (by simpa using slash)]
        rfl
  | succ length ih =>
    rw [← Nat.add_assoc, scanBack, if_neg (name length (by omega)),
      ih (i + 1) fun k less => name k (by omega)]
    simp; omega

namespace Location

variable (location : Location)

theorem text_split :
    location.text = (location.lead ++ Segments.unite '/' location.folders) ++
      (location.last ++ trail location.slash) := by
  simp [text]

theorem length_text :
    location.text.length = location.offset + location.last.length + (trail location.slash).length := by
  simp [text, offset]; omega

theorem drop_offset : location.text.drop location.offset = location.last ++ trail location.slash := by
  rw [text_split, offset, ← List.length_append, List.drop_left]

theorem char_last {k : Nat} (less : k < location.last.length) :
    location.text[location.offset + k]? ≠ some '/' := by
  have skip : location.text[location.offset + k]? = location.last[k]? := by
    rw [← List.getElem?_drop, drop_offset, List.getElem?_append_left less]
  rw [skip]
  exact fun same => location.lastFree (List.mem_of_getElem? same)

theorem char_before : location.offset = 0 ∨ location.text[location.offset - 1]? = some '/' := by
  rcases location.folders.eq_nil_or_concat with folders | ⟨front, word, folders⟩
  · cases absolute : location.absolute with
    | false => simp [offset, lead, trail, absolute, folders]
    | true => simp [text, offset, lead, trail, absolute, folders]
  · have place : location.offset - 1 =
        (location.lead ++ (Segments.unite '/' front ++ word)).length := by
      simp [offset, folders]; omega
    have shape : location.text = (location.lead ++ (Segments.unite '/' front ++ word)) ++
        '/' :: (location.last ++ trail location.slash) := by
      simp [text, folders]
    rw [place, shape, List.getElem?_append_right (Nat.le_refl _)]
    simp

theorem scanBack_text :
    scanBack location.text 0 (location.offset + location.last.length) =
      (location.last.length, location.offset) := by
  have scan := scanBack_name location.text 0 location.offset location.last.length
    (fun _ => location.char_last) location.char_before
  simpa using scan

theorem ends_slash :
    location.text[location.text.length - 1]? = some '/' ↔ location.slash = true := by
  have size := location.length_text
  cases ending : location.slash with
  | true =>
    have split : location.text = (location.lead ++ (Segments.unite '/' location.folders ++
        location.last)) ++ ['/'] := by
      simp [text, trail, ending]
    rw [split, List.length_append, List.length_singleton, Nat.add_sub_cancel]
    simp
  | false =>
    have named : 0 < location.last.length := by
      rw [List.length_pos_iff]
      intro empty
      simpa [ending] using location.ends empty
    have place : location.text.length - 1 = location.offset + (location.last.length - 1) := by
      simp [trail, ending] at size
      omega
    rw [place]
    simpa using location.char_last (by omega)

theorem text_ne_nil : location.text ≠ [] := by
  intro empty
  have parts : location.last = [] ∧ trail location.slash = [] :=
    List.append_eq_nil_iff.mp (List.append_eq_nil_iff.mp (location.text_split ▸ empty)).2
  simp [location.ends parts.1, trail] at parts

theorem head_relative (relative : location.absolute = false) : location.text.head? ≠ some '/' := by
  simpa [text, lead, trail, relative] using location.relative relative

theorem not_root : location.offset + location.last.length ≠ 0 := by
  intro zero
  cases absolute : location.absolute with
  | true => simp [offset, lead, trail, absolute] at zero
  | false =>
    have head := location.relative absolute
    have empty : Segments.unite '/' location.folders = [] ∧ location.last = [] := by
      simp only [offset, Nat.add_eq_zero_iff, List.length_eq_zero_iff] at zero
      exact ⟨zero.1.2, zero.2⟩
    simp [empty.1, empty.2, location.ends empty.2, trail] at head

end Location

def Location.parserState (location : Location) : VfsPathParserState :=
  { initVfsPathParserState with nameLength := location.last.length, nameOffset := location.offset }

@[simp] theorem Location.parserState_nameLength (location : Location) :
    location.parserState.nameLength = location.last.length := rfl

@[simp] theorem Location.parserState_nameOffset (location : Location) :
    location.parserState.nameOffset = location.offset := rfl

def Location.ReadsFrom (location : Location) (cwd base : Int) : Prop :=
  location.absolute = true ∧ base = 0 ∨ location.absolute = false ∧ cwd = base

theorem Location.readsFrom {location : Location} {path : Text} (located : locate path = some location)
    (cwd : Int) : location.ReadsFrom cwd (origin cwd path) := by
  have absolute := (locate_some located).2
  unfold Location.ReadsFrom origin
  cases lead : location.absolute <;> simp_all

theorem Location.dirId_eq (location : Location) {cwd base : Int} (reads : location.ReadsFrom cwd base) :
    vfsGetDirIdFromPath cwd location.text (location.offset + location.last.length) =
      walkLoop initVfsPathParserState base
        (Segments.unite '/' location.folders ++ (location.last ++ trail location.slash))
        ((Segments.unite '/' location.folders).length + location.last.length) := by
  rcases reads with ⟨absolute, rfl⟩ | ⟨relative, rfl⟩
  · have shape : location.text = '/' :: (Segments.unite '/' location.folders ++
        (location.last ++ trail location.slash)) := by
      simp [Location.text, Location.lead, trail, absolute]
    have length : location.offset + location.last.length - 1 =
        (Segments.unite '/' location.folders).length + location.last.length := by
      simp [Location.offset, Location.lead, trail, absolute]; omega
    rw [shape, vfsGetDirIdFromPath, length]
  · have shape : location.text = Segments.unite '/' location.folders ++
        (location.last ++ trail location.slash) := by
      simp [Location.text, Location.lead, trail, relative]
    have length : location.offset + location.last.length =
        (Segments.unite '/' location.folders).length + location.last.length := by
      simp [Location.offset, Location.lead, trail, relative]
    rw [vfsGetDirIdFromPath.eq_def]
    split
    next rest same => exact absurd (by rw [same]; rfl) (location.head_relative relative)
    next => rw [length, shape]

theorem Location.parsePath_eq (location : Location) (parserState : VfsPathParserState) {cwd base : Int}
    (reads : location.ReadsFrom cwd base) :
    vfsParsePath parserState location.text location.text.length cwd =
      (walkLoop initVfsPathParserState base
          (Segments.unite '/' location.folders ++ (location.last ++ trail location.slash))
          ((Segments.unite '/' location.folders).length + location.last.length) >>= fun tempId =>
        if tempId = -1 then pure (-1, location.parserState)
        else parseLastName location.parserState tempId location.text) := by
  have size := location.length_text
  have positive : location.text.length ≠ 0 := by simpa using location.text_ne_nil
  have fixed : (if location.text[location.text.length - 1]? = some '/' then location.text.length - 1
      else location.text.length) = location.offset + location.last.length := by
    simp only [location.ends_slash]
    cases ending : location.slash <;> simp [size, trail, ending]
  have separated : vfsSeperatePathAndName initVfsPathParserState location.text
      (location.offset + location.last.length) = location.parserState := by
    rw [vfsSeperatePathAndName, location.scanBack_text]
    rfl
  have reads' : location.ReadsFrom
      (if location.text.head? = some '/' then ROOT_FOLDER_ID else cwd) base :=
    reads.imp_right fun relative =>
      ⟨relative.1, by rw [if_neg (location.head_relative relative.1), relative.2]⟩
  unfold vfsParsePath
  simp only [positive, fixed, location.not_root, and_false, if_false, separated]
  rw [location.dirId_eq reads']

def rootParserState : VfsPathParserState :=
  { initVfsPathParserState with
    id := ROOT_FOLDER_ID, parentId := ROOT_PARENT_ID, isDir := true, isFilePath := false }

namespace History

def parseIn (history : History) (location : Location) (d : Nat) : VfsPathParserState :=
  if location.last = [] then location.parserState
  else
    match history.lookup d location.last location.slash with
    | none => { location.parserState with isExistingObject := false, parentId := d }
    | some (.file, id) =>
        { location.parserState with id := id, isFilePath := true, isDir := false, parentId := d }
    | some (.folder, id) =>
        { location.parserState with
          id := id, isFilePath := false, isDir := true, parentId := history.parent id }

def parse (history : History) (base : Nat) (path : Text) : Int × VfsPathParserState :=
  match locate path with
  | none => (0, rootParserState)
  | some location =>
      match history.walk base location.folders with
      | none => (-1, location.parserState)
      | some d => (0, history.parseIn location d)

end History

namespace Tree

variable (tree : Tree)

def parseLast (location : Location) (d : Int) : Except Fault (Int × VfsPathParserState) :=
  if location.last = [] then .ok (0, location.parserState)
  else
    match tree.history.findFile (unsigned d) location.last location.slash with
    | some id =>
        .ok (0, { location.parserState with id := id, isFilePath := true, isDir := false, parentId := d })
    | none =>
        match tree.folderFrom d location.last with
        | .error fault => .error fault
        | .ok id =>
            if implicitInt id = -1 then
              .ok (0, { location.parserState with isExistingObject := false, parentId := d })
            else
              match tree.above (implicitInt id) with
              | .error fault => .error fault
              | .ok parent =>
                  .ok (0, { location.parserState with
                    id := implicitInt id, isFilePath := false, isDir := true
                    parentId := implicitInt parent })

def parseFrom (base : Int) (path : Text) : Except Fault (Int × VfsPathParserState) :=
  match locate path with
  | none => .ok (0, rootParserState)
  | some location =>
      match tree.wander base location.folders with
      | .error fault => .error fault
      | .ok d => if d = -1 then .ok (-1, location.parserState) else tree.parseLast location d

theorem parseLastName_any_run (location : Location) (d : Int) :
    (parseLastName location.parserState d location.text).run execute tree.store =
      (tree.parseLast location d, tree.store) := by
  rw [parseLastName, parseLast, location.parserState_nameLength, location.parserState_nameOffset]
  by_cases unnamed : location.last = []
  · simp [unnamed]
  · have follows : Follows location.slash (trail location.slash) := by
      cases location.slash <;> simp [Follows, trail]
    have look := tree.findObject_any_run location.parserState d location.lastFree follows
    rw [← location.drop_offset] at look
    rw [if_pos (List.length_pos_iff.mpr unnamed), if_neg unnamed]
    cases file : tree.history.findFile (unsigned d) location.last location.slash with
    | some id =>
      simp only [file] at look
      rw [Program.run_bind_ok execute look]
      rfl
    | none =>
      simp only [file] at look
      cases folder : tree.folderFrom d location.last with
      | error fault =>
        simp only [folder] at look
        exact Program.run_bind_error execute look _
      | ok id =>
        simp only [folder] at look
        rw [Program.run_bind_ok execute look]
        by_cases missing : implicitInt id = -1
        · simp [missing]
        · have parent := tree.above_run (implicitInt id)
          simp only [missing, if_false, ne_eq, not_true_eq_false, Bool.false_eq_true]
          cases above : tree.above (implicitInt id) with
          | error fault =>
            rw [above] at parent
            exact Program.run_bind_error execute parent _
          | ok value =>
            rw [above] at parent
            rw [Program.run_bind_ok execute parent]
            rfl

theorem parsePath_any_run (parserState : VfsPathParserState) {path : Text} (nonempty : path ≠ [])
    (cwd : Int) :
    (vfsParsePath parserState path path.length cwd).run execute tree.store =
      (tree.parseFrom (origin cwd path) path, tree.store) := by
  unfold parseFrom
  cases located : locate path with
  | none =>
    obtain rfl := (locate_none located).resolve_left nonempty
    rfl
  | some location =>
    have walked := tree.walkLoop_any_run initVfsPathParserState (origin cwd path) location.foldersFree
      location.lastFree (trail location.slash)
    have parse := location.parsePath_eq parserState (Location.readsFrom located cwd)
    rw [← (locate_some located).1] at parse
    rw [parse]
    simp only
    cases walk : tree.wander (origin cwd path) location.folders with
    | error fault =>
      rw [walk] at walked
      exact Program.run_bind_error execute walked _
    | ok d =>
      rw [walk] at walked
      rw [Program.run_bind_ok execute walked, (locate_some located).1]
      by_cases lost : d = -1
      · simp [lost]
      · rw [if_neg lost]
        simp only [if_neg lost]
        exact tree.parseLastName_any_run location d

theorem above_linked {d : Nat} (linked : tree.history.Linked d) :
    tree.above d = .ok (tree.history.parent d : Int) :=
  congrArg Prod.fst ((tree.above_run d).symm.trans (tree.linked_parent_run linked))

theorem parent_le {d : Nat} (linked : tree.history.Linked d) : tree.history.parent d ≤ d := by
  by_cases root : d = 0
  · simp [root, History.parent]
  · exact (tree.parent_lists linked root).2.le

theorem parseLast_linked (location : Location) {d : Nat} (linked : tree.history.Linked d)
    (small : ∀ id, location.last ≠ [] →
      tree.history.lookup d location.last location.slash = some (.folder, id) → id < 2 ^ 31) :
    tree.parseLast location d = .ok (0, tree.history.parseIn location d) := by
  unfold parseLast History.parseIn
  by_cases unnamed : location.last = []
  · rw [if_pos unnamed, if_pos unnamed]
  · have small := fun id => small id unnamed
    unfold History.lookup at small ⊢
    rw [if_neg unnamed, if_neg unnamed, tree.number linked.le, tree.folderFrom_linked linked]
    cases noFile : tree.history.findFile d location.last location.slash with
    | some id => rfl
    | none =>
      have cut : implicitInt (asId (tree.history.folderNamed d location.last)) =
          asId (tree.history.folderNamed d location.last) :=
        implicitInt_asId fun id named => small id (by rw [noFile, named]; rfl)
      simp only [cut]
      cases named : tree.history.folderNamed d location.last with
      | none => rfl
      | some id =>
        have bound := small id (by rw [noFile, named]; rfl)
        have below := linked.folderNamed named
        have known : ((id : Nat) : Int) ≠ -1 := by omega
        have lower := tree.parent_le below
        have fits : implicitInt (tree.history.parent id : Int) = tree.history.parent id :=
          implicitInt_of_small (by omega) (by omega)
        simp only [asId, known, if_false, tree.above_linked below, fits, Option.map_some]

theorem parseFrom_linked {base : Nat} (linked : tree.history.Linked base) {path : Text}
    (within : ParsesWithin tree.history.view (· < 2 ^ 31) base path) :
    tree.parseFrom base path = .ok (tree.history.parse base path) := by
  unfold parseFrom History.parse
  cases located : locate path with
  | none => rfl
  | some location =>
    obtain ⟨folders, last⟩ := within location located
    simp only [tree.wander_linked linked folders]
    cases walk : tree.history.walk base location.folders with
    | none => rfl
    | some d =>
      have known : asId (some d) ≠ -1 := by simp [asId_eq_neg_one]
      rw [if_neg known]
      refine tree.parseLast_linked location (linked.walk walk) fun id named object => ?_
      exact last d id ((History.view_leads ..).trans walk) named (History.view_seek.mpr object)

theorem parsePath_from (parserState : VfsPathParserState) {path : Text} {cwd : Int} {base : Nat}
    (linked : tree.history.Linked base) (nonempty : path ≠ []) (from_ : origin cwd path = base)
    (within : ParsesWithin tree.history.view (· < 2 ^ 31) base path) :
    (vfsParsePath parserState path path.length cwd).run execute tree.store =
      (.ok (tree.history.parse base path), tree.store) := by
  rw [tree.parsePath_any_run parserState nonempty, from_, tree.parseFrom_linked linked within]

theorem parsePath_absolute (parserState : VfsPathParserState) {body : Text} (cwd : Int)
    (within : ParsesWithin tree.history.view (· < 2 ^ 31) 0 ('/' :: body)) :
    (vfsParsePath parserState ('/' :: body) ('/' :: body).length cwd).run execute tree.store =
      (.ok (tree.history.parse 0 ('/' :: body)), tree.store) :=
  tree.parsePath_from parserState .root (by simp) (by simp [origin]) within

theorem Small.within {tree : Tree} (small : tree.Small) {d : Nat} (linked : tree.history.Linked d)
    (words : List Text) : tree.history.view.Within (· < 2 ^ 31) d words := by
  intro before word e _ leads
  rw [History.view_leads] at leads
  have bound := (linked.walk leads).le
  unfold Small at small
  omega

theorem Small.parsesWithin {tree : Tree} (small : tree.Small) {base : Nat}
    (linked : tree.history.Linked base) (path : Text) :
    ParsesWithin tree.history.view (· < 2 ^ 31) base path := by
  refine fun location _ => ⟨small.within linked _, fun d e leads _ found => ?_⟩
  rw [History.view_leads] at leads
  have bound := ((linked.walk leads).lookup (History.view_seek.mp found)).le
  unfold Small at small
  omega

theorem Small.pathWithin {tree : Tree} (small : tree.Small) {base : Nat}
    (linked : tree.history.Linked base) (path : Text) :
    PathWithin tree.history.view (· < 2 ^ 31) base path :=
  ⟨small.within linked _, small.parsesWithin linked path⟩

end Tree

end RedisVfs
