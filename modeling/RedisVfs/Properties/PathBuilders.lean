import RedisVfs.Properties.Ancestors
import RedisVfs.Refinement.Skipping

set_option autoImplicit false

namespace RedisVfs

open CString

-- With enough turns both loops end with the same text.
def Store.PathsAgree (store : Store) (f : Int) : Prop :=
  ∃ enough text, ∀ fuel, enough ≤ fuel →
    (vfsGetDirPathFromId fuel f).run execute store = (.ok text, store) ∧
      (getAbsolutePathFromFolderId fuel f).run execute store = (.ok text, store)

theorem Store.Descends.unique {store : Store} {f : Int} {names names' : List Text}
    (descends : store.Descends f names) (descends' : store.Descends f names') : names = names' := by
  have natural {g : Int} {names : List Text} (descends : store.Descends g names) : 0 ≤ g := by
    induction descends with
    | root => exact le_rfl
    | child _ older _ _ ih => omega
  induction descends generalizing names' with
  | root =>
    cases descends' with
    | root => rfl
    | child _ older _ above => exact absurd (natural above) (by omega)
  | child parent older named above ih =>
    cases descends' with
    | root => exact absurd (natural above) (by omega)
    | child parent' older' named' above' =>
      cases parent.symm.trans parent'
      cases named.symm.trans named'
      rw [ih above']

theorem Shaped.words {name : Text} (shaped : Shaped name) (text : Text) :
    ∃ word slash, word ≠ [] ∧ name = word ++ trail slash ∧
      Segments.words '/' (name ++ '/' :: text) =
        word :: (if slash then [] :: Segments.words '/' text else Segments.words '/' text) := by
  obtain ⟨word, slash, nonempty, free, rfl⟩ := shaped
  refine ⟨word, slash, nonempty, rfl, ?_⟩
  cases slash with
  | false => simpa [trail] using Segments.words_closed free text
  | true =>
    have closed := Segments.words_closed free ('/' :: text)
    have empty := Segments.words_closed (show Segments.Free '/' [] by simp [Segments.Free]) text
    rw [List.nil_append] at empty
    simpa [trail, empty] using closed

theorem bare_words (text : Text) :
    Segments.words '/' (['/'] ++ '/' :: text) = [] :: [] :: Segments.words '/' text := by
  have empty (text : Text) := Segments.words_closed (show Segments.Free '/' [] by simp [Segments.Free]) text
  simp only [List.nil_append] at empty
  rw [List.singleton_append, empty, empty]

theorem unite_named {names : List Text} (shaped : ∀ name ∈ names, Shaped name) (words : List Text) :
    Segments.words '/' (Segments.unite '/' names) ≠ [] :: words := by
  cases names with
  | nil => simp [Segments.words]
  | cons name names =>
    obtain ⟨word, slash, nonempty, _, split⟩ := (shaped name (by simp)).words (Segments.unite '/' names)
    rw [Segments.unite_cons, split]
    exact fun same => nonempty (List.cons.inj same).1

theorem unite_inj {names names' : List Text} (shaped : ∀ name ∈ names, Shaped name)
    (shaped' : ∀ name ∈ names', Shaped name ∨ name = ['/'])
    (same : Segments.words '/' (Segments.unite '/' names) =
      Segments.words '/' (Segments.unite '/' names')) : names = names' := by
  induction names generalizing names' with
  | nil =>
    cases names' with
    | nil => rfl
    | cons name' names' =>
      rw [Segments.unite_cons] at same
      rcases shaped' name' (by simp) with named | rfl
      · obtain ⟨_, _, _, _, split⟩ := named.words (Segments.unite '/' names')
        simp [split, Segments.words] at same
      · simp [Segments.words] at same
  | cons name names ih =>
    have later : ∀ other ∈ names, Shaped other := fun other member => shaped other (by simp [member])
    obtain ⟨word, slash, nonempty, rfl, split⟩ := (shaped name (by simp)).words (Segments.unite '/' names)
    rw [Segments.unite_cons, split] at same
    cases names' with
    | nil => simp [Segments.words] at same
    | cons name' names' =>
      have later' : ∀ other ∈ names', Shaped other ∨ other = ['/'] := fun other member =>
        shaped' other (by simp [member])
      rw [Segments.unite_cons] at same
      rcases shaped' name' (by simp) with named | rfl
      · obtain ⟨word', slash', _, rfl, split'⟩ := named.words (Segments.unite '/' names')
        rw [split'] at same
        obtain ⟨rfl, rest⟩ := List.cons.inj same
        cases slash <;> cases slash'
        · rw [ih later later' rest]
        · exact absurd rest (unite_named later _)
        · -- What comes next begins with an empty word, so it is a bare '/', and another one follows.
          cases names' with
          | nil => simp [Segments.words] at rest
          | cons next names' =>
            rw [Segments.unite_cons] at rest
            rcases later' next (by simp) with named' | rfl
            · obtain ⟨_, _, nonempty', _, split''⟩ := named'.words (Segments.unite '/' names')
              rw [split''] at rest
              exact absurd (List.cons.inj rest).1.symm nonempty'
            · rw [bare_words] at rest
              exact absurd (List.cons.inj rest).2 (unite_named later _)
        · rw [ih later later' (List.cons.inj rest).2]
      · rw [bare_words] at same
        exact absurd (List.cons.inj same).1 nonempty

namespace Tree

variable (tree : Tree)

theorem names_shaped {id : Nat} (linked : tree.history.Linked id) :
    ∀ name ∈ tree.history.names id, Shaped name := by
  induction id, linked using tree.chain_induction with
  | root => simp [History.names_root]
  | child id linked nonroot above =>
    rw [tree.names_child linked nonroot]
    intro name member
    rcases List.mem_append.mp member with higher | here
    · exact above name higher
    · rw [List.mem_singleton.mp here]
      exact tree.child_shaped linked.parent (tree.parent_lists linked nonroot).1

theorem folderName_shaped {n : Nat} {name : Text} (named : tree.store.folderName n = some name) :
    Shaped name ∨ name = ['/'] := by
  have folder := tree.folder_of_name named
  rw [tree.folderName_store folder, Option.some.injEq] at named
  rcases folder with rfl | ⟨entry, found, _⟩
  · have called : tree.history.name 0 = "root".toList := by
      simp [History.name, Journal.name, Journal.entryAt_zero]
    rw [called] at named
    exact .inl ⟨"root".toList, false, by decide, by decide, named.symm⟩
  · rw [← named, History.name, Journal.name_of_entry found]
    exact (tree.grown.entry found).symm.imp (·.1) (·.2)

theorem skips_shaped {f : Int} {names : List Text} {g : Int} (skips : tree.store.Skips f names g) :
    ∀ name ∈ names, Shaped name ∨ name = ['/'] := by
  induction skips with
  | here => simp
  | above below nonroot named parent ih =>
    intro other member
    rcases List.mem_cons.mp member with rfl | earlier
    · exact tree.folderName_shaped named
    · exact ih other earlier

theorem names_of_text {id : Nat} (linked : tree.history.Linked id) {names : List Text} {g : Int}
    (skips : tree.store.Skips id names g)
    (same : names.flatMap ('/' :: ·) ++ ['/'] = (tree.history.names id).flatMap ('/' :: ·) ++ ['/']) :
    tree.history.names id = names := by
  rw [unite_spelled, unite_spelled, List.append_nil, List.append_nil] at same
  exact unite_inj (tree.names_shaped linked) (tree.skips_shaped skips)
    (congrArg (Segments.words '/') (List.cons.inj same).2.symm)

end Tree

-- The two builders write one path exactly if the stored parents, and the same read from behind their
-- first digits, lead from the folder to the root past the same names.
theorem builders_agree {state : State} (reached : Reachable state) {f : Int}
    (folder : state.store.FolderReached f) :
    state.store.PathsAgree f ↔
      ∃ names, state.store.Descends f names ∧ state.store.Skips f names 0 := by
  obtain ⟨tree, cwd, holds⟩ := reached.represented
  rw [holds.store] at folder ⊢
  obtain ⟨id, rfl, linked⟩ := tree.reached_iff.mp folder
  constructor
  · rintro ⟨enough, text, agree⟩
    obtain ⟨skipped, climbed⟩ := agree (enough + (tree.history.names id).length) (by omega)
    rw [tree.absolutePath_run _ linked, if_neg (by omega)] at climbed
    obtain ⟨names, skips, spelled⟩ := Store.Skips.here.of_loop skipped
    have same := (Except.ok.inj (congrArg Prod.fst climbed)).trans spelled
    obtain rfl := tree.names_of_text linked skips same.symm
    exact ⟨_, tree.descends_names linked, skips⟩
  · rintro ⟨names, descends, skips⟩
    obtain rfl := descends.unique (tree.descends_names linked)
    refine ⟨(tree.history.names id).length, (tree.history.names id).flatMap ('/' :: ·) ++ ['/'],
      fun fuel enough => ⟨?_, ?_⟩⟩
    · obtain ⟨more, rfl⟩ := Nat.exists_eq_add_of_le enough
      rw [vfsGetDirPathFromId, skips.loop_run]
      unfold dirPathLoop
      rfl
    · rw [tree.absolutePath_run _ linked, if_neg (by omega)]

theorem builders_agree_child : ∃ state : State, state.store.folders 0 = [1] ∧ state.store.PathsAgree 1 := by
  obtain ⟨tree, history, reached⟩ := reachable_folder
  have walk : tree.history.walk 0 ["a".toList] = some 1 := by rw [history]; decide
  have linked : tree.history.Linked 1 := History.Linked.walk .root walk
  have folder : tree.store.FolderReached ((1 : Nat) : Int) := tree.reached_iff.mpr ⟨1, rfl, linked⟩
  have names : tree.history.names 1 = ["a".toList] := by
    rw [tree.names_child linked (by decide), show tree.history.parent 1 = 0 by rw [history]; rfl,
      History.names_root, history]
    rfl
  have skips : tree.store.Skips ((1 : Nat) : Int) ["a".toList] 0 := by
    apply @Store.Skips.above tree.store 1 1 "a".toList "0".toList [] .here (by decide)
    · rw [Tree.store, history]; decide
    · rw [Tree.store, history]; decide
  exact ⟨_, by rw [Tree.store, history]; decide,
    (builders_agree reached folder).mpr ⟨_, names ▸ tree.descends_names linked, skips⟩⟩

-- Of "/a/b" the C builder writes "/b/": behind the first digit of the parent 1 there is nothing.
theorem builders_agree_nested : ∃ state : State, Reachable state ∧ state.store.FolderReached 2 ∧
    ¬ state.store.PathsAgree 2 ∧
      (vfsGetDirPathFromId 2 2).run execute state.store = (.ok "/b/".toList, state.store) ∧
      (getAbsolutePathFromFolderId 2 2).run execute state.store = (.ok "/a/b/".toList, state.store) := by
  obtain ⟨tree, history, reached⟩ := reachable_folders
  have walk : tree.history.walk 0 ["a".toList, "b".toList] = some 2 := by rw [history]; decide
  have linked : tree.history.Linked 2 := History.Linked.walk .root walk
  have folder : tree.store.FolderReached ((2 : Nat) : Int) := tree.reached_iff.mpr ⟨2, rfl, linked⟩
  have names : tree.history.names 2 = ["a".toList, "b".toList] := by
    rw [tree.names_child linked (by decide), show tree.history.parent 2 = 1 by rw [history]; rfl,
      tree.names_child (History.Linked.walk .root (show tree.history.walk 0 ["a".toList] = some 1 by
        rw [history]; decide)) (by decide),
      show tree.history.parent 1 = 0 by rw [history]; rfl, History.names_root, history]
    rfl
  have skips : tree.store.Skips ((2 : Nat) : Int) ["b".toList] 0 := by
    apply @Store.Skips.above tree.store 2 2 "b".toList "1".toList [] .here (by decide)
    · rw [Tree.store, history]; decide
    · rw [Tree.store, history]; decide
  have skipped (fuel : Nat) : (vfsGetDirPathFromId (1 + fuel) 2).run execute tree.store =
      (.ok "/b/".toList, tree.store) := by
    refine (skips.loop_run fuel).trans ?_
    unfold dirPathLoop
    rfl
  have climbed (fuel : Nat) : (getAbsolutePathFromFolderId (2 + fuel) 2).run execute tree.store =
      (.ok "/a/b/".toList, tree.store) := by
    refine (tree.absolutePath_run (2 + fuel) linked).trans ?_
    have long : ¬ 2 + fuel < ["a".toList, "b".toList].length := Nat.not_lt.mpr (Nat.le_add_right 2 fuel)
    rw [names, if_neg long]
    rfl
  refine ⟨_, reached, folder, ?_, skipped 1, climbed 0⟩
  rintro ⟨enough, text, agree⟩
  have short := (agree (1 + (enough + 1)) (by omega)).1
  have long := (agree (2 + enough) (by omega)).2
  rw [skipped] at short
  rw [climbed] at long
  have same := (Except.ok.inj (congrArg Prod.fst short)).trans
    (Except.ok.inj (congrArg Prod.fst long)).symm
  revert same
  decide

end RedisVfs
