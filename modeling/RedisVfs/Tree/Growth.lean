import RedisVfs.Tree.Reference

set_option autoImplicit false

namespace RedisVfs

open CString Directory

-- The lookup of `word` in the folder of a new object meets the new object.
def Kind.catches : Kind → Text → Text → Prop
  | .folder, name, word => word ≠ ['.'] ∧ word ≠ ['.', '.'] ∧ word <+: name
  | .file, name, word => name = word ∨ name = word ++ ['/']

def Returns (words : List Text) : Prop :=
  ∃ n rest, words = List.replicate n ['.'] ++ ['.', '.'] :: rest

-- Wherever the walk stands in the folder of the new object and meets it, it leads back up.
def History.Undisturbed (history : History) (entry : Journal.Entry Kind Text) (start : Nat)
    (words : List Text) : Prop :=
  ∀ before word after, words = before ++ word :: after →
    history.walk start before = some entry.parent → entry.kind.catches entry.name word →
      entry.kind = .folder ∧ Returns after

theorem returns_cons {word : Text} {words : List Text} :
    Returns (word :: words) ↔ word = ['.', '.'] ∨ word = ['.'] ∧ Returns words := by
  constructor
  · rintro ⟨n, rest, split⟩
    cases n with
    | zero => exact .inl (List.cons.inj split).1
    | succ n => exact .inr ⟨(List.cons.inj split).1, n, rest, (List.cons.inj split).2⟩
  · rintro (rfl | ⟨rfl, n, rest, rfl⟩)
    · exact ⟨0, words, rfl⟩
    · exact ⟨n + 1, rest, rfl⟩

namespace History

variable {history : History} {entry : Journal.Entry Kind Text}

theorem findFile_older (d : Nat) (word : Text) (slash : Bool) :
    findFile (entry :: history) d word slash =
      (history.findFile d word slash).or
        (if entry.kind = .file ∧ entry.parent = d ∧ fileNamed word slash entry.name then
          some (history.length + 1) else none) := by
  have older : (history.childFiles d).reverse.find? (fun id =>
      fileNamed word slash (name (entry :: history) id)) = history.findFile d word slash :=
    List.find?_congr fun id member => by
      rw [name, Journal.name_older _ _ (Journal.children_le (List.mem_reverse.mp member)).2]
  have newest : name (entry :: history) (history.length + 1) = entry.name :=
    Journal.name_of_entry (Journal.entryAt_newest _ _)
  rw [findFile, childFiles, Journal.children]
  by_cases here : entry.kind = .file ∧ entry.parent = d
  · rw [if_pos here, List.reverse_cons, List.find?_append, older]
    by_cases named : fileNamed word slash entry.name <;> simp [newest, named, here]
  · rw [if_neg here, older, if_neg fun all => here ⟨all.1, all.2.1⟩, Option.or_none]

theorem findFolder_older (d : Nat) (word : Text) :
    findFolder (entry :: history) d word =
      if entry.kind = .folder ∧ entry.parent = d ∧ word <+: entry.name then some (history.length + 1)
      else history.findFolder d word := by
  have older : (history.childFolders d).find? (fun id =>
      word.isPrefixOf (name (entry :: history) id)) = history.findFolder d word :=
    List.find?_congr fun id member => by
      rw [name, Journal.name_older _ _ (Journal.children_le member).2]
  have newest : name (entry :: history) (history.length + 1) = entry.name :=
    Journal.name_of_entry (Journal.entryAt_newest _ _)
  rw [findFolder, childFolders, Journal.children]
  by_cases here : entry.kind = .folder ∧ entry.parent = d
  · rw [if_pos here, List.find?_cons, newest, older]
    by_cases begins : word <+: entry.name
    · rw [List.isPrefixOf_iff_prefix.mpr begins, if_pos ⟨here.1, here.2, begins⟩]
    · have begins' : word.isPrefixOf entry.name = false := by
        rw [← Bool.not_eq_true, List.isPrefixOf_iff_prefix]; exact begins
      rw [begins', if_neg fun all => begins all.2.2]
  · rw [if_neg here, older, if_neg fun all => here ⟨all.1, all.2.1⟩]

theorem parent_kept {d : Nat} (bound : d ≤ history.length) :
    parent (entry :: history) d = history.parent d := Journal.parent_older entry bound

theorem folderNamed_older {d : Nat} (bound : d ≤ history.length) (word : Text) :
    folderNamed (entry :: history) d word =
      if entry.kind = .folder ∧ entry.parent = d ∧ word ≠ ['.'] ∧ word ≠ ['.', '.'] ∧
        word <+: entry.name then some (history.length + 1)
      else history.folderNamed d word := by
  unfold folderNamed
  by_cases dot : word = ['.']
  · simp [dot]
  · by_cases dots : word = ['.', '.']
    · simp [dots, parent_kept bound]
    · simp [dot, dots, findFolder_older]

theorem enter_kept {d id : Nat} {word : Text} (bound : d ≤ history.length)
    (entered : history.enter d word = some id)
    (clear : entry.parent = d → ¬ entry.kind.catches entry.name word) :
    enter (entry :: history) d word = some id := by
  obtain ⟨noFile, folder⟩ := enter_eq_some.mp entered
  refine enter_eq_some.mpr ⟨?_, ?_⟩
  · rw [findFile_older, noFile, Option.none_or, if_neg]
    rintro ⟨kind, here, named⟩
    apply clear here
    rw [kind]
    simpa [fileNamed, Kind.catches] using named
  · rw [folderNamed_older bound, if_neg, folder]
    rintro ⟨kind, here, caught⟩
    apply clear here
    rw [kind]
    exact caught

theorem enter_caught {d id : Nat} {word : Text} (bound : d ≤ history.length)
    (entered : history.enter d word = some id) (folder : entry.kind = .folder)
    (here : entry.parent = d) (caught : entry.kind.catches entry.name word) :
    enter (entry :: history) d word = some (history.length + 1) := by
  rw [folder] at caught
  refine enter_eq_some.mpr ⟨?_, ?_⟩
  · rw [findFile_older, (enter_eq_some.mp entered).1, folder]
    simp
  · rw [folderNamed_older bound, if_pos ⟨folder, here, caught⟩]

theorem enter_shadow {d : Nat} {word : Text} (file : entry.kind = .file) (here : entry.parent = d)
    (caught : entry.kind.catches entry.name word) : enter (entry :: history) d word = none := by
  rw [file] at caught
  have named : fileNamed word true entry.name = true := by simpa [fileNamed, Kind.catches] using caught
  cases entered : enter (entry :: history) d word with
  | none => rfl
  | some id =>
    have noFile := (enter_eq_some.mp entered).1
    rw [findFile_older, if_pos ⟨file, here, named⟩] at noFile
    simp at noFile

theorem parent_of_caught {d id : Nat} {word : Text} (entered : history.enter d word = some id)
    (folder : entry.kind = .folder) (caught : entry.kind.catches entry.name word) :
    history.parent id = d := by
  rw [folder] at caught
  have named := (enter_eq_some.mp entered).2
  rw [folderNamed, if_neg caught.1, if_neg caught.2.1] at named
  exact findFolder_parent named

theorem undisturbed_cons {start id : Nat} {word : Text} {words : List Text}
    (entered : history.enter start word = some id) :
    history.Undisturbed entry start (word :: words) ↔
      (entry.parent = start → entry.kind.catches entry.name word → entry.kind = .folder ∧ Returns words) ∧
        history.Undisturbed entry id words := by
  constructor
  · intro calm
    refine ⟨fun here caught => calm [] word words rfl (here ▸ rfl) caught, ?_⟩
    intro before word' after split stands caught
    refine calm (word :: before) word' after (by rw [split]; rfl) ?_ caught
    rw [walk, entered]
    exact stands
  · rintro ⟨first, rest⟩ before word' after split stands caught
    cases before with
    | nil =>
      obtain ⟨rfl, rfl⟩ := List.cons.inj split
      exact first (Option.some.inj stands).symm caught
    | cons head before =>
      obtain ⟨rfl, later⟩ := List.cons.inj split
      rw [walk, entered] at stands
      exact rest before word' after later stands caught

theorem enter_dot {d id : Nat} (entered : history.enter d ['.'] = some id) : id = d := by
  simpa [folderNamed, eq_comm] using (enter_eq_some.mp entered).2

theorem enter_dots {d id : Nat} (entered : history.enter d ['.', '.'] = some id) :
    id = history.parent d := by
  simpa [folderNamed, eq_comm] using (enter_eq_some.mp entered).2

end History

namespace Tree

variable {tree tree' : Tree} {entry : Journal.Entry Kind Text}
  (grown : tree'.history = entry :: tree.history)

include grown

theorem newest_empty (kind : Kind) :
    Journal.children tree'.history kind (tree.history.length + 1) = [] := by
  rw [List.eq_nil_iff_forall_not_mem]
  intro id member
  obtain ⟨below, found, _, parent⟩ := Journal.mem_children.mp member
  have bound := (Journal.entryAt_le found).2
  have size : tree'.history.length = tree.history.length + 1 := by rw [grown]; rfl
  have older := tree'.parent_older found (by omega)
  omega

theorem enter_newest (word : Text) :
    tree'.history.enter (tree.history.length + 1) word =
      if word = ['.'] then some (tree.history.length + 1)
      else if word = ['.', '.'] then some entry.parent
      else none := by
  have noFile : tree'.history.findFile (tree.history.length + 1) word true = none := by
    rw [History.findFile, History.childFiles, newest_empty grown]
    rfl
  have noFolder : tree'.history.findFolder (tree.history.length + 1) word = none := by
    rw [History.findFolder, History.childFolders, newest_empty grown]
    rfl
  have parent : tree'.history.parent (tree.history.length + 1) = entry.parent := by
    rw [grown]
    exact Journal.parent_of_entry (Journal.entryAt_newest _ _)
  rw [History.enter_of_findFile noFile, History.folderNamed, noFolder, parent]

-- From inside the new folder the old end is reached exactly by going back up at once.
theorem walk_newest {d id end_ : Nat} {words : List Text} (below : entry.parent = d)
    (folder : entry.kind = .folder) (parent : tree.history.parent id = d)
    (there : end_ ≤ tree.history.length) (walk : tree.history.walk id words = some end_)
    (shorter : ∀ rest, rest.length < words.length → tree.history.walk d rest = some end_ →
      (tree'.history.walk d rest = some end_ ↔ tree.history.Undisturbed entry d rest)) :
    tree'.history.walk (tree.history.length + 1) words = some end_ ↔
      Returns words ∧ tree.history.Undisturbed entry id words := by
  induction words with
  | nil =>
    have other : tree.history.length + 1 ≠ end_ := by omega
    simp [History.walk, other, Returns]
  | cons word words ih =>
    rw [History.walk] at walk
    cases entered : tree.history.enter id word with
    | none => simp [entered] at walk
    | some next =>
      simp only [entered] at walk
      rw [History.walk, enter_newest grown, returns_cons, History.undisturbed_cons entered]
      by_cases dot : word = ['.']
      · subst dot
        obtain rfl := History.enter_dot entered
        have rest := ih walk fun rest less => shorter rest (Nat.lt_succ_of_lt less)
        simpa [folder, Kind.catches] using rest
      · by_cases dots : word = ['.', '.']
        · subst dots
          obtain rfl := History.enter_dots entered
          rw [parent] at walk ⊢
          have rest := shorter words (by simp) walk
          simpa [folder, Kind.catches, below] using rest
        · simp [dot, dots]

theorem walk_kept_iff {start end_ : Nat} {words : List Text} (linked : tree.history.Linked start)
    (walk : tree.history.walk start words = some end_) :
    tree'.history.walk start words = some end_ ↔ tree.history.Undisturbed entry start words := by
  induction size : words.length using Nat.strong_induction_on generalizing start words with
  | _ size ih =>
    cases words with
    | nil =>
      refine iff_of_true walk fun before word after split => ?_
      simp at split
    | cons word words =>
      rw [History.walk] at walk
      cases entered : tree.history.enter start word with
      | none => simp [entered] at walk
      | some id =>
        simp only [entered] at walk
        have below := linked.enter entered
        rw [History.walk, History.undisturbed_cons entered, grown]
        by_cases caught : entry.parent = start ∧ entry.kind.catches entry.name word
        · obtain ⟨here, caught⟩ := caught
          cases kind : entry.kind with
          | file =>
            rw [History.enter_shadow kind here caught]
            simp [here, ← kind, caught]
            simp [kind]
          | folder =>
            have parent := History.parent_of_caught entered kind caught
            rw [History.enter_caught linked.le entered kind here caught]
            have inner := walk_newest grown here kind parent (below.walk walk).le walk
              fun rest less walk' => ih rest.length (by simp at size; omega) linked walk' rfl
            rw [grown] at inner
            simp only [inner]
            simp [here, ← kind, caught]
        · have clear : entry.parent = start → ¬ entry.kind.catches entry.name word :=
            fun here caught' => caught ⟨here, caught'⟩
          rw [History.enter_kept linked.le entered clear]
          have rest := ih words.length (by simp at size; omega) below walk rfl
          rw [grown] at rest
          simp only [rest]
          exact (and_iff_right fun here caught' => absurd caught' (clear here)).symm

theorem walk_either {start x y : Nat} {words : List Text} (linked : tree.history.Linked start)
    (walk : tree.history.walk start words = some x)
    (walk' : tree'.history.walk start words = some y) :
    y = x ∨ y = tree.history.length + 1 ∧ entry.kind = .folder ∧
      tree.history.parent x = entry.parent := by
  induction words using List.reverseRecOn generalizing x y with
  | nil =>
    rw [History.walk] at walk walk'
    exact .inl (Option.some.inj (walk'.symm.trans walk))
  | append_singleton words word ih =>
    rw [History.walk_concat] at walk walk'
    obtain ⟨x₀, before, entered⟩ := Option.bind_eq_some_iff.mp walk
    obtain ⟨y₀, before', entered'⟩ := Option.bind_eq_some_iff.mp walk'
    have bound := (linked.walk before).le
    rcases ih before before' with rfl | ⟨rfl, folder, beside⟩
    · rw [grown] at entered'
      by_cases caught : entry.parent = y₀ ∧ entry.kind.catches entry.name word
      · cases kind : entry.kind with
        | file =>
          rw [History.enter_shadow kind caught.1 caught.2] at entered'
          simp at entered'
        | folder =>
          rw [History.enter_caught bound entered kind caught.1 caught.2] at entered'
          exact .inr ⟨(Option.some.inj entered').symm, rfl,
            (History.parent_of_caught entered kind caught.2).trans caught.1.symm⟩
      · rw [History.enter_kept bound entered fun here name => caught ⟨here, name⟩] at entered'
        exact .inl (Option.some.inj entered').symm
    · rw [enter_newest grown] at entered'
      split at entered'
      next dot =>
        subst dot
        rw [History.enter_dot entered]
        exact .inr ⟨(Option.some.inj entered').symm, folder, beside⟩
      · split at entered'
        next dots =>
          subst dots
          rw [History.enter_dots entered, beside]
          exact .inl (Option.some.inj entered').symm
        next => simp at entered'

theorem parent_ne_newest : entry.parent ≠ tree.history.length + 1 := by
  intro same
  have found : Journal.entryAt tree'.history (tree.history.length + 1) = some entry := by
    rw [grown]
    exact Journal.entryAt_newest entry tree.history
  have size : tree'.history.length = tree.history.length + 1 := by rw [grown]; rfl
  have older := tree'.parent_older found (by omega)
  omega

theorem caught_of_enter {d id : Nat} {word : Text} (linked : tree.history.Linked d)
    (entered : tree.history.enter d word = some id)
    (entered' : tree'.history.enter d word = some (tree.history.length + 1)) :
    entry.parent = d ∧ entry.kind.catches entry.name word := by
  by_contra clear
  rw [grown, History.enter_kept linked.le entered fun here name => clear ⟨here, name⟩] at entered'
  have old := (linked.enter entered).le
  have same := Option.some.inj entered'
  omega

theorem dot_of_enter {word : Text}
    (entered : tree'.history.enter (tree.history.length + 1) word = some (tree.history.length + 1)) :
    word = ['.'] := by
  rw [enter_newest grown] at entered
  split at entered
  next dot => exact dot
  next =>
    split at entered
    · exact absurd (Option.some.inj entered) (parent_ne_newest grown)
    · simp at entered

theorem walk_dots (n : Nat) :
    tree'.history.walk (tree.history.length + 1) (List.replicate n ['.']) =
      some (tree.history.length + 1) := by
  induction n with
  | zero => rfl
  | succ n ih =>
    rw [List.replicate_succ, History.walk, enter_newest grown, if_pos rfl]
    exact ih

theorem caught_of_walk {start x : Nat} {words : List Text} (linked : tree.history.Linked start)
    (walk : tree.history.walk start words = some x)
    (walk' : tree'.history.walk start words = some (tree.history.length + 1)) :
    ∃ before word n, words = before ++ word :: List.replicate n ['.'] ∧
      tree.history.walk start before = some entry.parent ∧
        entry.kind.catches entry.name word ∧ tree.history.Undisturbed entry start before := by
  induction words using List.reverseRecOn generalizing x with
  | nil =>
    have bound := linked.le
    rw [History.walk] at walk'
    have same := Option.some.inj walk'
    omega
  | append_singleton words word ih =>
    rw [History.walk_concat] at walk walk'
    obtain ⟨x₀, before, entered⟩ := Option.bind_eq_some_iff.mp walk
    obtain ⟨y₀, before', entered'⟩ := Option.bind_eq_some_iff.mp walk'
    rcases walk_either grown linked before before' with rfl | ⟨rfl, -, -⟩
    · obtain ⟨here, caught⟩ := caught_of_enter grown (linked.walk before) entered entered'
      exact ⟨words, word, 0, rfl, here ▸ before, caught, (walk_kept_iff grown linked before).mp before'⟩
    · obtain ⟨front, caught, n, split, stands, name, calm⟩ := ih before before'
      refine ⟨front, caught, n + 1, ?_, stands, name, calm⟩
      rw [split, dot_of_enter grown entered', List.replicate_succ', List.append_assoc, List.cons_append]

-- A path leads into the new folder exactly if it stays there after a component that meets it.
theorem walk_to_newest_iff {start x : Nat} {words : List Text} (folder : entry.kind = .folder)
    (linked : tree.history.Linked start) (walk : tree.history.walk start words = some x) :
    tree'.history.walk start words = some (tree.history.length + 1) ↔
      ∃ before word n, words = before ++ word :: List.replicate n ['.'] ∧
        tree.history.walk start before = some entry.parent ∧
          entry.kind.catches entry.name word ∧ tree.history.Undisturbed entry start before := by
  refine ⟨caught_of_walk grown linked walk, ?_⟩
  rintro ⟨before, word, n, rfl, stands, caught, calm⟩
  rw [History.walk_append] at walk ⊢
  obtain ⟨m, first, rest⟩ := Option.bind_eq_some_iff.mp walk
  cases stands.symm.trans first
  rw [History.walk] at rest
  cases entered : tree.history.enter entry.parent word with
  | none => simp [entered] at rest
  | some id =>
    have inside : tree'.history.enter entry.parent word = some (tree.history.length + 1) := by
      rw [grown]
      exact History.enter_caught (linked.walk first).le entered folder rfl caught
    rw [(walk_kept_iff grown linked stands).mpr calm, Option.bind_some, History.walk, inside]
    exact walk_dots grown n

theorem newest_folder_iff {start e : Nat} {words : List Text} {word : Text}
    (folder : entry.kind = .folder) (linked : tree.history.Linked start)
    (walk : tree.history.walk start words = some e) :
    tree'.history.walk start (words ++ [word]) = some (tree.history.length + 1) ↔
      (word ≠ ['.'] ∧ word ≠ ['.', '.'] ∧ entry.parent = e ∧ word <+: entry.name ∧
          tree.history.findFile e word true = none ∧ tree.history.Undisturbed entry start words) ∨
        word = ['.'] ∧ tree'.history.walk start words = some (tree.history.length + 1) := by
  have bound := (linked.walk walk).le
  rw [History.walk_concat]
  constructor
  · intro found
    obtain ⟨y, walk', entered⟩ := Option.bind_eq_some_iff.mp found
    rcases walk_either grown linked walk walk' with rfl | ⟨rfl, _, _⟩
    · obtain ⟨noFile, named⟩ := History.enter_eq_some.mp entered
      rw [grown, History.findFile_older, Option.or_eq_none_iff] at noFile
      rw [grown, History.folderNamed_older bound] at named
      split at named
      next caught =>
        exact .inl ⟨caught.2.2.1, caught.2.2.2.1, caught.2.1, caught.2.2.2.2, noFile.1,
          (walk_kept_iff grown linked walk).mp walk'⟩
      next =>
        have old := ((linked.walk walk).folderNamed named).le
        omega
    · rw [enter_newest grown] at entered
      split at entered
      next dot => exact .inr ⟨dot, walk'⟩
      next =>
        split at entered
        · exact absurd (Option.some.inj entered) (parent_ne_newest grown)
        · simp at entered
  · rintro (⟨dot, dots, here, begins, noFile, calm⟩ | ⟨rfl, walk'⟩)
    · rw [(walk_kept_iff grown linked walk).mpr calm, Option.bind_some]
      refine History.enter_eq_some.mpr ⟨?_, ?_⟩
      · rw [grown, History.findFile_older, noFile, folder]
        simp
      · rw [grown, History.folderNamed_older bound, if_pos ⟨folder, here, dot, dots, begins⟩]
    · rw [walk', Option.bind_some, enter_newest grown, if_pos rfl]

theorem newest_file_iff {start e : Nat} {words : List Text} {word : Text}
    (file : entry.kind = .file) (linked : tree.history.Linked start)
    (walk : tree.history.walk start words = some e) :
    (∃ y, tree'.history.walk start words = some y ∧
        tree'.history.findFile y word false = some (tree.history.length + 1)) ↔
      entry.parent = e ∧ entry.name = word ∧ tree.history.findFile e word false = none ∧
        tree.history.Undisturbed entry start words := by
  constructor
  · rintro ⟨y, walk', found⟩
    rcases walk_either grown linked walk walk' with rfl | ⟨_, folder, _⟩
    · rw [grown, History.findFile_older, Option.or_eq_some_iff] at found
      rcases found with old | ⟨noFile, new⟩
      · have bound := (Journal.children_le (History.mem_of_findFile old).1).2
        omega
      · split at new
        next matches_ =>
          refine ⟨matches_.2.1, ?_, noFile, (walk_kept_iff grown linked walk).mp walk'⟩
          simpa [fileNamed] using matches_.2.2
        next => simp at new
    · rw [file] at folder
      simp at folder
  · rintro ⟨here, name, noFile, calm⟩
    refine ⟨e, (walk_kept_iff grown linked walk).mpr calm, ?_⟩
    rw [grown, History.findFile_older, noFile, if_pos ⟨file, here, by simp [fileNamed, name]⟩]
    rfl

end Tree

end RedisVfs
