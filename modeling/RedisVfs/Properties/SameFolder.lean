import RedisVfs.Properties.Ancestors
import RedisVfs.Properties.RoundTrip
import RedisVfs.Tree.Growth

set_option autoImplicit false

namespace RedisVfs

open CString Directory

-- The formatted path, where there is one, leads to the folder that the path itself leads to; where
-- the formatting throws, the path leads nowhere.
structure State.SameFolder (state : State) (path : Text) : Prop where
  formats : ∃ fuel, (formatToValidPath fuel state.context path).run execute state.store ≠
    (.error .outOfFuel, state.store)
  formatted : ∀ fuel formattedPath,
    (formatToValidPath fuel state.context path).run execute state.store =
        (.ok formattedPath, state.store) →
      ∃ id, (getFolderIdFromPath state.context formattedPath).run execute state.store =
          (.ok id, state.store) ∧
        (getFolderIdFromPath state.context path).run execute state.store = (.ok id, state.store)
  thrown : ∀ fuel message, (formatToValidPath fuel state.context path).run execute state.store =
      (.error (.thrown message), state.store) →
    (getFolderIdFromPath state.context path).run execute state.store = (.ok (-1), state.store)

def State.cwdFolder (state : State) : Option Int :=
  state.store.view.leads 0 (components (state.context.cwd.drop 1))

structure Store.Bare (store : Store) : Prop where
  folders : ∀ e ∈ store.folders (unsigned (-1)), store.folderName e = some ['/']
  files : ∀ e ∈ store.files (unsigned (-1)), store.fileName e = some ['/']

-- No folder that the lookups come through, for the working directory or for either reading of the
-- path, has a number that is cut.
structure State.WalksUncut (state : State) (path : Text) : Prop where
  start : state.store.view.Within (· < 2 ^ 31) 0 (components (state.context.cwd.drop 1))
  absolute : path.head? = some '/' → state.store.view.Within (· < 2 ^ 31) 0 (components (path.drop 1))
  relative : ∀ d, state.cwdFolder = some d → state.store.view.Within (· < 2 ^ 31) d (components path)
  rest : ∀ d, state.cwdFolder = some d →
    state.store.view.Within (· < 2 ^ 31) d (components (removeAnyPathPrefix path))
  lost : state.cwdFolder = none → state.store.Bare

-- The path is absolute; or the working directory is lost, and the path does not begin with '..'; or
-- the names down to it are plain, and a file called '.' stops no "./" before something that is found.
def State.MeansSame (state : State) (path : Text) : Prop :=
  path.head? = some '/' ∨
    (state.cwdFolder = none ∧ (components path).head? ≠ some ['.', '.']) ∨
      ∃ d, state.cwdFolder = some d ∧ state.store.PlainChain d ∧
        (path.take 2 = ['.', '/'] → state.store.view.Shadowed d ['.'] →
          state.store.view.leads d (components (path.drop 2)) = none)

-- The path of the folder itself leads nowhere, and no component leads anywhere from the folder.
def Store.CutOff (store : Store) (d : Int) : Prop :=
  (∃ names, store.Descends d names ∧
      store.view.leads 0 (components (Segments.unite '/' names)) = none) ∧
    ∀ word, word ≠ [] → Segments.Free '/' word → store.view.enter d word = none

namespace Tree

variable (tree : Tree)

theorem descends_unique {id : Nat} (linked : tree.history.Linked id) {names : List Text}
    (descends : tree.store.Descends id names) : names = tree.history.names id := by
  induction id, linked using tree.chain_induction generalizing names with
  | root =>
    cases descends with
    | root => exact tree.history.names_root.symm
    | child parent older named above =>
      rw [tree.folderParent_store .root] at parent
      cases parent
      simp [History.parent] at older
  | child id linked nonroot ih =>
    generalize origin : (id : Int) = f at descends
    cases descends with
    | root => omega
    | child parent older named above =>
      subst origin
      rw [tree.folderParent_store linked] at parent
      cases parent
      rw [tree.folderName_store (tree.linked_folder linked)] at named
      cases named
      rw [tree.names_child linked nonroot, ih above]

theorem bare_store (bare : tree.store.Bare) : tree.Bare := by
  intro kind id member
  have folders := bare.folders
  have files := bare.files
  rw [unsigned_sentinel] at folders files
  cases kind with
  | folder =>
    have named := folders id (tree.mem_folders_store.mpr member)
    obtain ⟨entry, found, kind, -⟩ := Journal.mem_children.mp member
    rw [tree.folderName_store (.inr ⟨entry, found, kind⟩)] at named
    exact Option.some.inj named
  | file =>
    have named := files id (tree.mem_files_store.mpr member)
    rw [tree.fileName_store member] at named
    exact Option.some.inj named

theorem within_narrow (narrow : ∀ e, tree.store.FolderReached e → e < 2 ^ 31) {d : Nat}
    (linked : tree.history.Linked d) (words : List Text) :
    tree.history.view.Within (· < 2 ^ 31) d words := by
  intro before word e _ leads
  rw [History.view_leads] at leads
  have below := narrow e (tree.reached_iff.mpr ⟨e, rfl, linked.walk leads⟩)
  exact_mod_cast below

theorem absolute_same {cwd body : Text} (start : tree.history.view.Within (· < 2 ^ 31) 0 (components cwd))
    (within : tree.history.view.Within (· < 2 ^ 31) 0 (components body)) :
    State.SameFolder ⟨tree.store, { cwd := '/' :: cwd }⟩ ('/' :: body) := by
  have format (fuel : Nat) := tree.store.format_run fuel { cwd := '/' :: cwd } ('/' :: body)
  simp only [tree.store.format_bare] at format
  have folder := tree.store.folderId_run { cwd := '/' :: cwd } ('/' :: body)
  rw [tree.folderId_linked start within] at folder
  refine ⟨⟨0, by simp [format]⟩, fun fuel formattedPath ran => ?_, fun fuel message ran => ?_⟩
  · obtain rfl : '/' :: body = formattedPath := by simpa [format] using ran
    exact ⟨_, folder, folder⟩
  · simp [format] at ran

def rebuilt (d : Nat) (words : List Text) : Except Fault Int :=
  match tree.history.walk 0 ((tree.history.names d).flatMap pieces) with
  | none => .ok (-1)
  | some m => tree.wander m words

section Relative

variable {path : Text} (nonempty : path ≠ []) (relative : path.head? ≠ some '/') {cwd : Text}
  (start : tree.history.view.Within (· < 2 ^ 31) 0 (components cwd))

include nonempty relative

theorem format_lost (fuel : Nat) (lost : tree.history.walk 0 (components cwd) = none) :
    tree.history.format fuel cwd path =
      .error (.thrown "failed to get left side of expression".toList) := by
  rw [History.format, if_neg (by simpa using nonempty), if_neg relative, lost]

theorem format_found (fuel : Nat) {d : Nat} (found : tree.history.walk 0 (components cwd) = some d) :
    tree.history.format fuel cwd path =
      if fuel < (tree.history.names d).length then .error .outOfFuel
      else .ok ('/' :: (Segments.unite '/' (tree.history.names d) ++ removeAnyPathPrefix path)) := by
  have linked : tree.history.Linked d := History.Linked.walk .root found
  rw [History.format, if_neg (by simpa using nonempty), if_neg relative, found]
  simp only [tree.climb_turns fuel linked, List.nil_append, unite_spelled, List.append_nil]
  by_cases short : fuel < (tree.history.names d).length <;> simp [short]

include start

theorem direct_run :
    (getFolderIdFromPath { cwd := '/' :: cwd } path).run execute tree.store =
      (tree.wander (asId (tree.history.walk 0 (components cwd))) (components path), tree.store) := by
  have lead : pathLead path = [] := by simp [pathLead, relative, trail]
  have here := tree.getDirId_any_run (asId (tree.history.walk 0 (components cwd))) nonempty
  rw [lead, origin, if_neg relative] at here
  rw [tree.store.folderId_run, Store.folderId, tree.cwdId_linked start]
  exact congrArg (·, tree.store) (congrArg Prod.fst here)

theorem lost_iff (lost : tree.history.walk 0 (components cwd) = none) (bare : tree.Bare) :
    State.SameFolder ⟨tree.store, { cwd := '/' :: cwd }⟩ path ↔
      (components path).head? ≠ some ['.', '.'] := by
  have format (fuel : Nat) := tree.store.format_run fuel { cwd := '/' :: cwd } path
  simp only [tree.format_linked _ start, tree.format_lost nonempty relative _ lost] at format
  have direct := tree.direct_run nonempty relative start
  obtain ⟨word, words, parts, named⟩ := components_relative nonempty relative
  have free : Segments.Free '/' word := components_free path word (by simp [parts])
  rw [lost, parts] at direct
  rw [parts]
  constructor
  · intro same
    have answer := direct.symm.trans (same.thrown 0 _ (format 0))
    intro dots
    obtain rfl : word = ['.', '.'] := by simpa using dots
    rw [asId, tree.wander_sentinel bare named free, if_pos rfl] at answer
    simp at answer
  · intro other
    have dots : word ≠ ['.', '.'] := by simpa using other
    refine ⟨⟨0, by simp [format]⟩, fun fuel formattedPath ran => ?_, fun fuel message _ => ?_⟩
    · simp [format] at ran
    · rw [direct, asId, tree.wander_sentinel bare named free, if_neg dots]

omit nonempty relative in
theorem formatted_run {d : Nat}
    (above : tree.history.view.Within (· < 2 ^ 31) 0 ((tree.history.names d).flatMap pieces)) (rest : Text) :
    (getFolderIdFromPath { cwd := '/' :: cwd }
        ('/' :: (Segments.unite '/' (tree.history.names d) ++ rest))).run execute tree.store =
      (tree.rebuilt d (components rest), tree.store) := by
  have closed : Segments.rest '/' (Segments.unite '/' (tree.history.names d)) = [] := by
    simpa [Segments.rest] using Segments.rest_unite '/' (tree.history.names d) []
  rw [tree.store.folderId_run, Store.folderId, tree.cwdId_linked start]
  simp only [tree.pathId_tree]
  rw [components_append closed, components_names, tree.wander_append 0 _ (fun _ => by decide),
    tree.wander_root above, rebuilt]
  cases tree.history.walk 0 ((tree.history.names d).flatMap pieces) with
  | none => rfl
  | some m => simp [asId]

theorem found_iff {d : Nat} (found : tree.history.walk 0 (components cwd) = some d)
    (above : tree.history.view.Within (· < 2 ^ 31) 0 ((tree.history.names d).flatMap pieces)) :
    State.SameFolder ⟨tree.store, { cwd := '/' :: cwd }⟩ path ↔
      ∃ id, tree.rebuilt d (components (removeAnyPathPrefix path)) = .ok id ∧
        tree.wander d (components path) = .ok id := by
  have direct := tree.direct_run nonempty relative start
  have format (fuel : Nat) := tree.store.format_run fuel { cwd := '/' :: cwd } path
  simp only [tree.format_linked _ start, tree.format_found nonempty relative _ found] at format
  have formatted := tree.formatted_run start above (removeAnyPathPrefix path)
  rw [found] at direct
  constructor
  · intro same
    have enough := format (tree.history.names d).length
    rw [if_neg (Nat.lt_irrefl _)] at enough
    obtain ⟨id, formattedRun, directRun⟩ := same.formatted _ _ enough
    exact ⟨id, congrArg Prod.fst (formatted.symm.trans formattedRun),
      congrArg Prod.fst (direct.symm.trans directRun)⟩
  · rintro ⟨id, left, right⟩
    refine ⟨⟨(tree.history.names d).length, ?_⟩, fun fuel formattedPath ran => ?_,
      fun fuel message ran => ?_⟩
    · rw [format, if_neg (Nat.lt_irrefl _)]
      simp
    · rw [format] at ran
      split at ran
      · simp at ran
      · obtain ⟨rfl⟩ := Except.ok.inj (Prod.mk.inj ran).1
        exact ⟨id, by rw [formatted, left], by rw [direct]; exact Prod.ext right rfl⟩
    · rw [format] at ran
      split at ran <;> simp at ran

theorem plain_iff {d : Nat} (found : tree.history.walk 0 (components cwd) = some d)
    (plain : tree.history.view.Chain 0 (PlainIn tree.history.view) d)
    (within : tree.history.view.Within (· < 2 ^ 31) d (components path))
    (rest : tree.history.view.Within (· < 2 ^ 31) d (components (removeAnyPathPrefix path))) :
    State.SameFolder ⟨tree.store, { cwd := '/' :: cwd }⟩ path ↔
      (path.take 2 = ['.', '/'] → tree.history.view.Shadowed d ['.'] →
        tree.history.walk d (components (path.drop 2)) = none) := by
  have linked : tree.history.Linked d := History.Linked.walk .root found
  have canonical : tree.history.Canonical d := History.Canonical.walk .root found
  have below : d < 2 ^ 31 := start.led (by decide) ((History.view_leads ..).trans found)
  have back := tree.readsBack_of_plain linked canonical plain
  unfold History.ReadsBack at back
  rw [tree.found_iff nonempty relative start found (tree.within_of_plain linked canonical plain below),
    rebuilt, back]
  simp only [tree.wander_linked linked within, tree.wander_linked linked rest, Except.ok.injEq,
    exists_eq_left']
  rw [asId_injective.eq_iff, removeAnyPathPrefix, if_neg relative]
  by_cases dotted : path.take 2 = ['.', '/']
  · have parts : components path = ['.'] :: components (path.drop 2) := by
      have shape : path = ['.', '/'] ++ path.drop 2 := by rw [← dotted, List.take_append_drop]
      conv_lhs => rw [shape]
      exact components_append rfl _
    rw [if_pos dotted, parts, History.walk]
    by_cases shadowed : tree.history.view.Shadowed d ['.']
    · simp [History.enter_shadowed shadowed, dotted, shadowed, eq_comm]
    · simp [History.enter_clear shadowed, History.folderNamed, shadowed]
  · simp [dotted]

end Relative

-- Where they do not, "./" and the single components already tell the readings apart, unless neither
-- reading comes anywhere.
theorem lostChain_iff {cwd : Text} {d : Nat} (narrow : ∀ e, tree.store.FolderReached e → e < 2 ^ 31)
    (found : tree.history.walk 0 (components cwd) = some d) (notBack : ¬ tree.history.ReadsBack d) :
    (∀ path, path ≠ [] → State.SameFolder ⟨tree.store, { cwd := '/' :: cwd }⟩ path) ↔
      tree.history.walk 0 ((tree.history.names d).flatMap pieces) = none ∧
        ∀ word, word ≠ [] → Segments.Free '/' word → tree.history.enter d word = none := by
  have linked : tree.history.Linked d := History.Linked.walk .root found
  have start := tree.within_narrow narrow .root (components cwd)
  have above := tree.within_narrow narrow .root ((tree.history.names d).flatMap pieces)
  have direct (words : List Text) := tree.wander_linked linked (tree.within_narrow narrow linked words)
  constructor
  · intro same
    have dotted : "./".toList ≠ [] := by decide
    obtain ⟨id, rebuilt, read⟩ := (tree.found_iff dotted (by decide) start found above).mp (same _ dotted)
    have lost : tree.history.walk 0 ((tree.history.names d).flatMap pieces) = none := by
      have parts : components "./".toList = [['.']] := by decide
      have none : components (removeAnyPathPrefix "./".toList) = [] := by decide
      rw [direct, parts, Except.ok.injEq] at read
      rw [none, Tree.rebuilt] at rebuilt
      cases names : tree.history.walk 0 ((tree.history.names d).flatMap pieces) with
      | none => rfl
      | some m =>
        simp only [names, wander, Except.ok.injEq] at rebuilt
        have here : tree.history.walk d [['.']] = some m := asId_injective (read.trans rebuilt.symm)
        rw [History.walk] at here
        cases entered : tree.history.enter d ['.'] with
        | none => simp [entered] at here
        | some m' =>
          simp only [entered, History.walk, Option.some.injEq] at here
          obtain rfl := History.enter_dot entered
          exact absurd (here ▸ names) notBack
    refine ⟨lost, fun word named free => ?_⟩
    have relative : word.head? ≠ some '/' := by
      intro slash
      cases word with
      | nil => exact named rfl
      | cons c word =>
        obtain rfl : c = '/' := by simpa using slash
        exact free List.mem_cons_self
    obtain ⟨id, rebuilt, read⟩ := (tree.found_iff named relative start found above).mp (same _ named)
    have parts : components word = [word] := by
      have bare := @components_named _ false free (fun empty => absurd empty named)
      rwa [trail, if_neg (by decide), List.append_nil] at bare
    rw [Tree.rebuilt, lost] at rebuilt
    rw [direct, parts, ← rebuilt, Except.ok.injEq] at read
    have none : tree.history.walk d [word] = none := asId_injective read
    rw [History.walk] at none
    cases entered : tree.history.enter d word with
    | none => rfl
    | some m => simp [entered, History.walk] at none
  · rintro ⟨lost, stuck⟩ path nonempty
    by_cases absolute : path.head? = some '/'
    · obtain ⟨body, rfl⟩ : ∃ body, path = '/' :: body := by
        cases path with
        | nil => simp at absolute
        | cons c body => exact ⟨body, by simpa using absolute⟩
      exact tree.absolute_same start (tree.within_narrow narrow .root _)
    · obtain ⟨word, words, parts, named⟩ := components_relative nonempty absolute
      have free : Segments.Free '/' word := components_free path word (by simp [parts])
      refine (tree.found_iff nonempty absolute start found above).mpr ⟨-1, ?_, ?_⟩
      · rw [rebuilt, lost]
      · rw [direct, parts, History.walk, stuck word named free]
        rfl

end Tree

end RedisVfs
