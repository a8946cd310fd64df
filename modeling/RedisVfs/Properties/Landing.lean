import Mathlib.Data.List.DropRight
import RedisVfs.Properties.Extension
import RedisVfs.Properties.ReadBack

set_option autoImplicit false

namespace RedisVfs

open CString Directory

def lastComponent (path : Text) : Text := Segments.rest '/' (path.rdropWhile (· == '/'))

def beforeLast (path : Text) : Text :=
  Segments.unite '/' (Segments.words '/' (path.rdropWhile (· == '/')))

def Store.objectName (store : Store) : Kind → Int → Option Text
  | .folder => store.folderName
  | .file => store.fileName

-- One new object, in the list of its kind in this folder, called so; a folder names it as parent.
def Store.LandedIn (store store' : Store) (kind : Kind) (d : Nat) (name : Text) : Prop :=
  ∃ id, store.ExtendedBy store' kind d id ∧ store'.objectName kind id = some name ∧
    (kind = .folder → store'.folderParent id = some d)

-- Whenever the creation returns true, the formatted path has a last component, what precedes it leads
-- to a folder, and that is where the object went, under that name.
def State.Lands (state : State) (kind : Kind) (path : Text) : Prop :=
  ∀ fuel context store, ((kind.call path).program fuel state.context).run execute state.store =
      (.ok (true, context), store) →
    ∃ formattedPath, ∃ d : Nat,
      (formatToValidPath fuel state.context path).run execute state.store =
          (.ok formattedPath, state.store) ∧
        lastComponent formattedPath ≠ [] ∧
          (vfsGetDirIdFromPath 0 (beforeLast formattedPath) (beforeLast formattedPath).length).run
              execute state.store = (.ok d, state.store) ∧
            state.store.LandedIn store kind d (lastComponent formattedPath)

-- If the folders of the path lead to a folder, no '/' ends the path, and its last name is neither '.'
-- nor '..', unless that folder is the root or holds a file called so. The path is not "/".
def Store.NameKept (store : Store) (path : Text) : Prop :=
  ∃ location, locate path = some location ∧ ∀ d, store.view.leads 0 location.folders = some d →
    location.slash = false ∧
      (Proper location.last ∨ d = 0 ∨ some location.last ∈ store.view.files d)

structure State.Uncut (state : State) (path : Text) : Prop where
  start : state.store.view.Within (· < 2 ^ 31) 0 (components (state.context.cwd.drop 1))
  formatted : ∀ fuel formattedPath, (formatToValidPath fuel state.context path).run execute state.store =
      (.ok formattedPath, state.store) →
    ParsesWithin state.store.view (· < 2 ^ 31) 0 formattedPath

theorem lastComponent_free (path : Text) : Segments.Free '/' (lastComponent path) :=
  Segments.rest_free '/' _

theorem open_parts {path : Text} (open_ : Segments.rest '/' path ≠ []) :
    lastComponent path = Segments.rest '/' path ∧ beforeLast path = pathOf path (pathWords path) := by
  have kept : path.rdropWhile (· == '/') = path := by
    apply List.rdropWhile_eq_self_iff.mpr
    intro nonempty ends
    have last : path.getLast? = some '/' := by
      rw [List.getLast?_eq_some_getLast nonempty]
      simpa using ends
    exact open_ ((getLast?_eq_slash path).mp last).2
  have whole := Segments.unite_words_rest '/' path
  have parts := path_parts path
  rw [← List.append_assoc] at parts
  rw [lastComponent, beforeLast, kept]
  exact ⟨rfl, List.append_cancel_right (whole.trans parts.symm)⟩

theorem Store.ExtendedBy.unique {store store' : Store} {kind : Kind} {d d' id id' : Nat}
    (extended : store.ExtendedBy store' kind d id) (extended' : store.ExtendedBy store' kind d' id') :
    d = d' ∧ id = id' := by
  refine ⟨?_, decimal_injective (Option.some.inj (extended.counted.symm.trans extended'.counted))⟩
  by_contra other
  have keys : listKey kind d ≠ listKey kind d' := by cases kind <;> simpa [listKey] using other
  have same := congrFun (extended.listed.symm.trans extended'.listed) (listKey kind d)
  rw [Function.update_self, Function.update_of_ne keys] at same
  simpa using congrArg List.length same

namespace History

theorem place_of_walk {history : History} {location : Location} {d : Nat}
    (walk : history.walk 0 location.folders = some d) :
    history.place location = some (if location.last = [] then (nowhere, ['/'])
      else (history.parentFor location d, location.last ++ trail location.slash)) := by
  rw [place, walk]
  simp only [parentFor]
  split
  · rfl
  · cases history.lookup d location.last location.slash with
    | none => rfl
    | some object =>
      obtain ⟨kind, id⟩ := object
      cases kind <;> rfl

theorem place_free {history : History} {body name : Text} {d : Nat} (free : Segments.Free '/' name)
    (placed : history.placeOfPath body = some (d, name)) :
    ∃ location m, locate ('/' :: body) = some location ∧
      history.walk 0 location.folders = some m ∧ location.last ≠ [] ∧ location.slash = false ∧
        d = history.parentFor location m ∧ name = location.last := by
  unfold placeOfPath at placed
  cases located : locate ('/' :: body) with
  | none =>
    simp only [located, Option.some.injEq, Prod.mk.injEq] at placed
    rw [← placed.2] at free
    simp [Segments.Free] at free
  | some location =>
    simp only [located] at placed
    cases walk : history.walk 0 location.folders with
    | none => simp [place, walk] at placed
    | some m =>
      rw [place_of_walk walk, Option.some.injEq] at placed
      by_cases unnamed : location.last = []
      · rw [if_pos unnamed] at placed
        cases placed
        simp [Segments.Free] at free
      · rw [if_neg unnamed] at placed
        cases placed
        cases slash : location.slash with
        | true => simp [slash, trail, Segments.Free] at free
        | false => exact ⟨location, m, rfl, walk, unnamed, slash, rfl, List.append_nil _⟩

end History

namespace Tree

variable (tree : Tree)

theorem created_named {kind : Kind} {place : Nat × Text}
    (takes : tree.history.Takes place.1 place.2) (accepts : tree.store.Accepts) :
    (tree.created kind place).store.objectName kind ((tree.history.length + 1 : Nat) : Int) =
      some place.2 := by
  have found := Journal.entryAt_newest ⟨kind, place.1, place.2⟩ tree.history
  have name : (tree.created kind place).name (tree.history.length + 1) = place.2 :=
    Journal.name_of_entry found
  cases kind with
  | folder =>
    have stored := (tree.extend .folder place takes accepts).folderName_store (.inr ⟨_, found, rfl⟩)
    exact stored.trans (congrArg some name)
  | file =>
    have listed := Journal.mem_children.mpr ⟨_, found, rfl, rfl⟩
    have stored := (tree.extend .file place takes accepts).fileName_store listed
    exact stored.trans (congrArg some name)

theorem place_of_landed {kind : Kind} {place : Nat × Text} {d : Nat} {name : Text}
    (takes : tree.history.Takes place.1 place.2) (accepts : tree.store.Accepts)
    (landed : tree.store.LandedIn (tree.created kind place).store kind d name) : place = (d, name) := by
  obtain ⟨id, extended, named, _⟩ := landed
  obtain ⟨same, rfl⟩ := (tree.created_extends kind place).unique extended
  exact Prod.ext same (Option.some.inj ((tree.created_named takes accepts).symm.trans named))

theorem landed_of_place {kind : Kind} {d : Nat} {name : Text}
    (takes : tree.history.Takes d name) (accepts : tree.store.Accepts) (linked : tree.history.Linked d) :
    tree.store.LandedIn (tree.created kind (d, name)).store kind d name := by
  refine ⟨_, tree.created_extends kind (d, name), tree.created_named takes accepts, ?_⟩
  rintro rfl
  have found := Journal.entryAt_newest ⟨Kind.folder, d, name⟩ tree.history
  have above : (tree.created .folder (d, name)).Linked d := linked.older _
  have stored := (tree.extend .folder (d, name) takes accepts).folderParent_store
    (.child found rfl above)
  rw [extend_history, History.parent, Journal.parent_of_entry found] at stored
  exact stored

theorem parentFor_eq_iff {location : Location} {m : Nat} (linked : tree.history.Linked m)
    (named : location.last ≠ []) (open_ : location.slash = false) :
    tree.history.parentFor location m = m ↔
      Proper location.last ∨ m = 0 ∨ some location.last ∈ tree.store.view.files m := by
  constructor
  · intro same
    by_cases noFile : tree.history.findFile m location.last false = none
    · exact (tree.parentFor_dotted linked named (open_ ▸ noFile) same).imp_right .inl
    · exact .inr (.inr (not_not.mp (tree.findFile_open.not.mp noFile)))
  · rintro (proper | rfl | file)
    · exact History.parentFor_proper _ _ proper
    · exact tree.parentFor_root named
    · obtain ⟨id, found⟩ := Option.ne_none_iff_exists'.mp (tree.findFile_open.not.mpr (not_not.mpr file))
      rw [History.parentFor, History.lookup, open_, found]

theorem before_last_run {body : Text} {location : Location} (located : locate ('/' :: body) = some location)
    (within : tree.history.view.Within (· < 2 ^ 31) 0 location.folders) (open_ : location.slash = false) :
    lastComponent ('/' :: body) = location.last ∧
      (vfsGetDirIdFromPath 0 (beforeLast ('/' :: body)) (beforeLast ('/' :: body)).length).run execute
        tree.store = (.ok (asId (tree.history.walk 0 location.folders)), tree.store) := by
  have named := Location.named_of_open open_
  obtain ⟨words, rest⟩ := Location.path_open located open_
  obtain ⟨last, before⟩ := open_parts (rest ▸ named)
  have split : pathWords ('/' :: body) = location.folders ++ [] := by rw [words, List.append_nil]
  have start : origin 0 (pathOf ('/' :: body) location.folders) = ((0 : Nat) : Int) :=
    pathOf_origin split 0
  rw [last, rest, before, words, tree.dirId_any_run, start, pathOf_words split, tree.wander_linked .root within]
  exact ⟨rfl, rfl⟩

theorem kept_of_lands (accepts : tree.store.Accepts) {cwd path body : Text} {kind : Kind} {fuel : Nat}
    (uncut : tree.Uncut cwd path)
    (lands : State.Lands ⟨tree.store, { cwd := '/' :: cwd }⟩ kind path)
    (format : tree.history.format fuel cwd path = .ok ('/' :: body)) :
    tree.store.NameKept ('/' :: body) := by
  cases placed : tree.history.placeOfPath body with
  | none =>
    unfold History.placeOfPath at placed
    cases located : locate ('/' :: body) with
    | none => simp [located] at placed
    | some location =>
      refine ⟨location, located, fun d leads => ?_⟩
      obtain ⟨m, walk, _⟩ := tree.leads_root_iff.mp leads
      simp [located, History.place_of_walk walk] at placed
  | some place =>
    have returned := (tree.creation_uncut_iff accepts kind uncut).mpr ⟨rfl, body, place, format, placed, rfl⟩
    obtain ⟨formattedPath, d, format', _, before, landed⟩ := lands fuel _ _ returned
    have same : formattedPath = '/' :: body := by
      rw [tree.store.format_run, tree.format_linked fuel uncut.start, format, Prod.mk.injEq,
        Except.ok.injEq] at format'
      exact format'.1.symm
    subst same
    cases tree.place_of_landed (History.placeOfPath_takes placed) accepts landed
    obtain ⟨location, m, located, walk, named, open_, parent, _⟩ :=
      History.place_free (lastComponent_free _) placed
    have folders := (uncut.formatted fuel _ format location located).1
    have answer := (tree.before_last_run located folders open_).2
    rw [before, walk, Prod.mk.injEq, Except.ok.injEq] at answer
    have here : d = m := by simpa [asId] using answer.1
    have linked : tree.history.Linked m := History.Linked.walk .root walk
    refine ⟨location, located, fun d' leads => ⟨open_, ?_⟩⟩
    obtain ⟨m', walk', rfl⟩ := tree.leads_root_iff.mp leads
    cases walk.symm.trans walk'
    exact_mod_cast (tree.parentFor_eq_iff linked named open_).mp (parent.symm.trans here)

theorem lands_of_kept (accepts : tree.store.Accepts) {body : Text} {kind : Kind} {place : Nat × Text}
    (within : ParsesWithin tree.history.view (· < 2 ^ 31) 0 ('/' :: body))
    (placed : tree.history.placeOfPath body = some place) (kept : tree.store.NameKept ('/' :: body)) :
    lastComponent ('/' :: body) ≠ [] ∧ ∃ d : Nat,
      (vfsGetDirIdFromPath 0 (beforeLast ('/' :: body)) (beforeLast ('/' :: body)).length).run execute
          tree.store = (.ok d, tree.store) ∧
        tree.store.LandedIn (tree.created kind place).store kind d (lastComponent ('/' :: body)) := by
  obtain ⟨location, located, keeps⟩ := kept
  have here := placed
  unfold History.placeOfPath at here
  simp only [located] at here
  cases walk : tree.history.walk 0 location.folders with
  | none => simp [History.place, walk] at here
  | some m =>
    have linked : tree.history.Linked m := History.Linked.walk .root walk
    obtain ⟨open_, keeps⟩ := keeps m (tree.leads_root_iff.mpr ⟨m, walk, rfl⟩)
    have named := Location.named_of_open open_
    have parent := (tree.parentFor_eq_iff linked named open_).mpr (by exact_mod_cast keeps)
    obtain ⟨last, before⟩ := tree.before_last_run located (within location located).1 open_
    rw [History.place_of_walk walk, if_neg named, parent, open_, trail, if_neg (by simp),
      List.append_nil, Option.some.injEq] at here
    subst here
    refine ⟨last ▸ named, m, ?_, ?_⟩
    · rw [before, walk]
      rfl
    · rw [last]
      exact tree.landed_of_place
        (linked.takes ⟨_, false, named, location.lastFree, (List.append_nil _).symm⟩) accepts linked

theorem lands_iff (accepts : tree.store.Accepts) {cwd path : Text} (uncut : tree.Uncut cwd path)
    (kind : Kind) :
    State.Lands ⟨tree.store, { cwd := '/' :: cwd }⟩ kind path ↔
      ∀ fuel formattedPath, tree.history.format fuel cwd path = .ok formattedPath →
        tree.store.NameKept formattedPath := by
  constructor
  · intro lands fuel formattedPath format
    obtain ⟨body, rfl⟩ := Store.format_absolute ((tree.format_linked fuel uncut.start path).trans format)
    exact tree.kept_of_lands accepts uncut lands format
  · intro kept fuel context store ran
    obtain ⟨rfl, body, place, format, placed, rfl⟩ := (tree.creation_uncut_iff accepts kind uncut).mp ran
    obtain ⟨named, d, before, landed⟩ := tree.lands_of_kept accepts
      (uncut.formatted fuel _ format) placed (kept fuel _ format)
    exact ⟨_, d, by rw [tree.store.format_run, tree.format_linked fuel uncut.start, format],
      named, before, landed⟩

theorem uncut_store {cwd path : Text} (uncut : State.Uncut ⟨tree.store, { cwd := '/' :: cwd }⟩ path) :
    tree.Uncut cwd path := by
  have start : tree.history.view.Within (· < 2 ^ 31) 0 (components cwd) := tree.within_root.mp uncut.start
  refine ⟨start, fun fuel formattedPath format => (tree.parsesWithin_store .root).mp ?_⟩
  refine uncut.formatted fuel formattedPath ?_
  rw [tree.store.format_run, tree.format_linked fuel start, format]

end Tree

-- A creation that returns true put its object where the formatted path says exactly if the last name
-- of that path is kept.
theorem creation_lands {state : State} (reached : Reachable state) (accepts : state.store.Accepts)
    (kind : Kind) (path : Text) (uncut : state.Uncut path) :
    state.Lands kind path ↔ ∀ fuel formattedPath,
      (formatToValidPath fuel state.context path).run execute state.store =
        (.ok formattedPath, state.store) → state.store.NameKept formattedPath := by
  obtain ⟨tree, cwd, holds⟩ := reached.represented
  obtain rfl := holds.state_eq
  have uncut := tree.uncut_store uncut
  rw [tree.lands_iff accepts uncut]
  simp only [tree.store.format_run, tree.format_linked _ uncut.start, Prod.mk.injEq, and_true]

theorem creation_lands_nested : ∃ state : State, state.store.folders 0 = [1] ∧
    state.Lands .file "/a/f".toList := by
  obtain ⟨tree, history, reached⟩ := reachable_folder
  have small : tree.Small := by rw [Tree.Small, history]; decide
  have kept : tree.store.NameKept "/a/f".toList := by
    cases located : locate "/a/f".toList with
    | none => rcases locate_none located with empty | root <;> simp at *
    | some location =>
      have parts : ["a".toList] ++ ["f".toList] = location.folders ++ [location.last] :=
        Location.components located
      obtain ⟨_, last⟩ := List.append_inj' parts rfl
      have open_ : location.slash = false := by
        apply Bool.eq_false_iff.mpr
        rw [Ne, ← Location.getLast?, ← (locate_some located).1]
        decide
      exact ⟨location, located, fun d _ => ⟨open_, .inl ((List.cons.inj last).1 ▸ by decide)⟩⟩
  have uncut : State.Uncut ⟨tree.store, { cwd := ['/'] }⟩ "/a/f".toList :=
    ⟨tree.within_root.mpr (small.within .root _),
      fun _ _ _ => (tree.parsesWithin_store .root).mpr (small.parsesWithin .root _)⟩
  refine ⟨⟨tree.store, { cwd := ['/'] }⟩, ?_, (creation_lands reached small.accepts .file _ uncut).mpr ?_⟩
  · rw [Tree.store, history]; decide
  · intro fuel formattedPath formatRun
    have format := (tree.store.format_run fuel { cwd := ['/'] } "/a/f".toList).symm.trans formatRun
    obtain rfl : "/a/f".toList = formattedPath := Except.ok.inj (Prod.mk.inj format).1
    exact kept

-- The name that is stored keeps the '/' that ends the path.
theorem creation_lands_slash : ∃ state : State, Reachable state ∧ state.store.Accepts ∧
    ¬ state.Lands .folder "/a/".toList := by
  have small := Tree.small_fresh
  refine ⟨⟨Tree.fresh.store, { cwd := ['/'] }⟩, .built Redis.Store.empty, small.accepts, fun lands => ?_⟩
  obtain ⟨location, located, kept⟩ :=
    (Tree.fresh.lands_iff small.accepts (small.uncut _ _) .folder).mp lands 0 "/a/".toList rfl
  have parts : [] ++ ["a".toList] = location.folders ++ [location.last] := Location.components located
  obtain ⟨folders, _⟩ := List.append_inj' parts rfl
  have open_ := (kept 0 (by rw [← folders]; rfl)).1
  have closed : location.slash = true := by
    rw [← Location.getLast?, ← (locate_some located).1]
    decide
  simp [closed] at open_

end RedisVfs
