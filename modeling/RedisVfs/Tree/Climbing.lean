import RedisVfs.Tree.Paths
import RedisVfs.Tree.Reference

set_option autoImplicit false

namespace RedisVfs

open CString Directory

namespace History

def names (history : History) (id : Nat) : List Text :=
  if _below : id ≠ 0 ∧ history.parent id < id then
    names history (history.parent id) ++ [history.name id]
  else []
termination_by id
decreasing_by exact _below.2

theorem names_root (history : History) : history.names 0 = [] := by
  rw [names]; simp

-- The folders that a lookup by prefix finds, one below the other.
inductive Canonical (history : History) : Nat → Prop
  | root : Canonical history 0
  | child {d id : Nat} {word : Text} (above : Canonical history d)
      (found : history.findFolder d word = some id) : Canonical history id

theorem Canonical.parent {history : History} {id : Nat} (canonical : history.Canonical id) :
    history.Canonical (history.parent id) := by
  cases canonical with
  | root => simpa [History.parent] using Canonical.root
  | child above found => rwa [findFolder_parent found]

theorem Canonical.enter {history : History} {d id : Nat} {word : Text} (canonical : history.Canonical d)
    (entered : history.enter d word = some id) : history.Canonical id := by
  have named := (enter_eq_some.mp entered).2
  unfold folderNamed at named
  split at named
  · cases named; exact canonical
  · split at named
    · cases named; exact canonical.parent
    · exact .child canonical named

theorem Canonical.walk {history : History} {d id : Nat} {words : List Text}
    (canonical : history.Canonical d) (walk : history.walk d words = some id) :
    history.Canonical id := by
  induction words generalizing d with
  | nil => cases walk; exact canonical
  | cons word words ih =>
    rw [History.walk] at walk
    cases entered : history.enter d word with
    | none => simp [entered] at walk
    | some m =>
      simp only [entered] at walk
      exact ih (canonical.enter entered) walk

-- The first folder that begins with a word is also the first that begins with its own name.
theorem findFolder_name {history : History} {d id : Nat} {word : Text}
    (found : history.findFolder d word = some id) :
    history.findFolder d (history.name id) = some id := by
  have begins := (mem_of_findFolder found).2
  unfold findFolder at found ⊢
  rw [List.find?_eq_some_iff_append] at found ⊢
  obtain ⟨_, before, after, split, none⟩ := found
  refine ⟨List.isPrefixOf_iff_prefix.mpr (List.prefix_refl _), before, after, split, ?_⟩
  intro other member
  have misses := none other member
  simp only [Bool.not_eq_true', ← Bool.not_eq_true, List.isPrefixOf_iff_prefix] at misses ⊢
  exact fun longer => misses (begins.trans longer)

theorem Canonical.findFolder {history : History} {id : Nat} (canonical : history.Canonical id)
    (nonroot : id ≠ 0) : history.findFolder (history.parent id) (history.name id) = some id := by
  cases canonical with
  | root => exact absurd rfl nonroot
  | child above found =>
    rw [findFolder_parent found]
    exact findFolder_name found

end History

theorem unite_spelled (words : List Text) (after : Text) :
    words.flatMap ('/' :: ·) ++ ('/' :: after) = '/' :: (Segments.unite '/' words ++ after) := by
  induction words with
  | nil => rfl
  | cons word words ih =>
    rw [List.flatMap_cons, List.append_assoc, ih]
    simp

namespace Tree

variable (tree : Tree)

theorem names_child {id : Nat} (linked : tree.history.Linked id) (nonroot : id ≠ 0) :
    tree.history.names id = tree.history.names (tree.history.parent id) ++ [tree.history.name id] := by
  rw [History.names, dif_pos ⟨nonroot, (tree.parent_lists linked nonroot).2⟩]

theorem chain_induction {motive : (id : Nat) → tree.history.Linked id → Prop} (root : motive 0 .root)
    (child : ∀ id (linked : tree.history.Linked id), id ≠ 0 →
      motive (tree.history.parent id) linked.parent → motive id linked)
    (id : Nat) (linked : tree.history.Linked id) : motive id linked := by
  induction linked with
  | root => exact root
  | @child id entry found kind above ih =>
    have nonroot : id ≠ 0 := by have := Journal.entryAt_le found; omega
    have parent : tree.history.parent id = entry.parent := Journal.parent_of_entry found
    apply child id (.child found kind above) nonroot
    simpa only [parent] using ih

theorem names_length {id : Nat} (linked : tree.history.Linked id) :
    (tree.history.names id).length = depth tree.history id := by
  induction id, linked using tree.chain_induction with
  | root => simp [depth_root, History.names_root]
  | child id linked nonroot ih =>
    rw [tree.names_child linked nonroot, tree.depth_parent linked nonroot, List.length_append, ih]
    rfl

theorem climb_turns (fuel : Nat) {id : Nat} (linked : tree.history.Linked id) (output : Text) :
    tree.history.climb fuel id output =
      if fuel < (tree.history.names id).length then none
      else some ((tree.history.names id).flatMap ('/' :: ·) ++ (output ++ ['/'])) := by
  induction id, linked using tree.chain_induction generalizing fuel output with
  | root => cases fuel <;> simp [History.climb, History.names_root]
  | child id linked nonroot ih =>
    have names := tree.names_child linked nonroot
    have length := congrArg List.length names
    rw [List.length_append, List.length_singleton] at length
    cases fuel with
    | zero =>
      rw [History.climb, if_neg nonroot, if_pos (by omega)]
    | succ fuel =>
      rw [History.climb, if_neg nonroot]
      simp only [ih fuel, length, Nat.add_lt_add_iff_right]
      split
      · rfl
      · simp [names]

theorem climb_names {id : Nat} (linked : tree.history.Linked id) (output : Text) :
    tree.history.climb (depth tree.history id) id output =
      some ((tree.history.names id).flatMap ('/' :: ·) ++ (output ++ ['/'])) := by
  rw [tree.climb_turns _ linked, tree.names_length linked, if_neg (Nat.lt_irrefl _)]

theorem climb_path {id : Nat} (linked : tree.history.Linked id) :
    tree.history.climb (depth tree.history id) id [] =
      some ('/' :: Segments.unite '/' (tree.history.names id)) := by
  rw [tree.climb_names linked, List.nil_append, unite_spelled, List.append_nil]

end Tree

def pieces (name : Text) : List Text := Segments.words '/' (name ++ ['/'])

theorem components_names (names : List Text) :
    components (Segments.unite '/' names) = names.flatMap pieces := by
  have closed : Segments.rest '/' (Segments.unite '/' names) = [] := by
    simpa [Segments.rest] using Segments.rest_unite '/' names []
  rw [components, if_pos closed, List.append_nil]
  clear closed
  induction names with
  | nil => rfl
  | cons name names ih =>
    have ends : Segments.rest '/' (name ++ ['/']) = [] := Segments.rest_behind '/' name []
    have shape : Segments.unite '/' (name :: names) = (name ++ ['/']) ++ Segments.unite '/' names := by
      simp
    rw [shape, Segments.words_append ends, ih]
    rfl

theorem pieces_free {name : Text} (free : Segments.Free '/' name) : pieces name = [name] := by
  rw [pieces, Segments.words_closed free]
  rfl

theorem pieces_slash {word : Text} (free : Segments.Free '/' word) :
    pieces (word ++ ['/']) = [word, []] := by
  rw [pieces, List.append_assoc, List.singleton_append, Segments.words_closed free]
  rfl

-- A name that the walk reads as one component and that no file shadows.
def PlainIn {A : Type} (view : View A) (d : A) (name : Text) : Prop := Legal name ∧ ¬ view.Shadowed d name

def Undotted (name : Text) : Prop :=
  name ≠ ['.'] ∧ name ≠ ['.', '.'] ∧ name ≠ ['.', '/'] ∧ name ≠ ['.', '.', '/']

theorem History.chain_cases {history : History} {fits : Nat → Text → Prop} {id : Nat} (nonroot : id ≠ 0)
    (chain : history.view.Chain 0 fits id) :
    fits (history.parent id) (history.name id) ∧ history.view.Chain 0 fits (history.parent id) := by
  cases chain with
  | root => exact absurd rfl nonroot
  | child _ parent named here above =>
    cases parent
    cases named
    exact ⟨here, above⟩

def History.ReadsBack (history : History) (id : Nat) : Prop :=
  history.walk 0 ((history.names id).flatMap pieces) = some id

namespace Tree

variable (tree : Tree)

theorem name_shaped {id : Nat} (linked : tree.history.Linked id) (nonroot : id ≠ 0) :
    Shaped (tree.history.name id) :=
  tree.child_shaped linked.parent (tree.parent_lists linked nonroot).1

theorem readsBack_of_plain {id : Nat} (linked : tree.history.Linked id)
    (canonical : tree.history.Canonical id)
    (chain : tree.history.view.Chain 0 (PlainIn tree.history.view) id) : tree.history.ReadsBack id := by
  induction id, linked using tree.chain_induction with
  | root => simp [History.ReadsBack, History.names_root, History.walk]
  | child id linked nonroot ih =>
    obtain ⟨⟨legal, clear⟩, above⟩ := History.chain_cases nonroot chain
    have parent := ih canonical.parent above
    unfold History.ReadsBack at parent ⊢
    rw [tree.names_child linked nonroot, List.flatMap_append, List.flatMap_singleton,
      pieces_free legal.2.1, History.walk_concat, parent, Option.bind_some, History.enter_clear clear,
      History.folderNamed_proper ⟨legal.1, legal.2.2⟩]
    exact canonical.findFolder nonroot

theorem within_of_plain {id bound : Nat} (linked : tree.history.Linked id)
    (canonical : tree.history.Canonical id)
    (chain : tree.history.view.Chain 0 (PlainIn tree.history.view) id) (below : id < bound) :
    tree.history.view.Within (· < bound) 0 ((tree.history.names id).flatMap pieces) := by
  induction id, linked using tree.chain_induction with
  | root =>
    rw [History.names_root]
    exact View.within_nil _ _
  | child id linked nonroot ih =>
    obtain ⟨⟨legal, clear⟩, above⟩ := History.chain_cases nonroot chain
    have older := (tree.parent_lists linked nonroot).2
    have back := tree.readsBack_of_plain linked canonical chain
    unfold History.ReadsBack at back
    rw [tree.names_child linked nonroot, List.flatMap_append, List.flatMap_singleton,
      pieces_free legal.2.1] at back ⊢
    refine View.within_concat.mpr ⟨ih canonical.parent above (by omega), fun e leads => ?_⟩
    rw [History.view_leads, back] at leads
    cases leads
    exact below

theorem enter_descends {d id : Nat} {word : Text} (linked : tree.history.Linked d)
    (dot : word ≠ ['.']) (dots : word ≠ ['.', '.']) (entered : tree.history.enter d word = some id) :
    tree.history.parent id = d ∧ depth tree.history id = depth tree.history d + 1 := by
  have named := (History.enter_eq_some.mp entered).2
  rw [History.folderNamed, if_neg dot, if_neg dots] at named
  exact ⟨History.findFolder_parent named,
    tree.depth_child linked (History.mem_of_findFolder named).1⟩

theorem walk_descends {d id : Nat} {words : List Text} (linked : tree.history.Linked d)
    (undotted : ∀ word ∈ words, word ≠ ['.'] ∧ word ≠ ['.', '.'])
    (walk : tree.history.walk d words = some id) :
    depth tree.history id = depth tree.history d + words.length := by
  induction words generalizing d with
  | nil => cases walk; rfl
  | cons word words ih =>
    rw [History.walk] at walk
    cases entered : tree.history.enter d word with
    | none => simp [entered] at walk
    | some m =>
      simp only [entered] at walk
      obtain ⟨dot, dots⟩ := undotted word (by simp)
      have first := (tree.enter_descends linked dot dots entered).2
      have rest := ih (linked.enter entered) (fun other member => undotted other (by simp [member])) walk
      simp only [List.length_cons]
      omega

theorem pieces_cases {name : Text} (shaped : Shaped name) (undotted : Undotted name) :
    (Legal name ∧ pieces name = [name]) ∨
      ∃ word, word ≠ ['.'] ∧ word ≠ ['.', '.'] ∧ pieces name = [word, []] := by
  obtain ⟨word, slash, nonempty, free, rfl⟩ := shaped
  cases slash with
  | false =>
    have bare : word ++ trail false = word := List.append_nil word
    rw [bare] at undotted ⊢
    exact .inl ⟨⟨nonempty, free, undotted.1, undotted.2.1⟩, pieces_free free⟩
  | true =>
    refine .inr ⟨word, ?_, ?_, pieces_slash free⟩
    · rintro rfl; exact undotted.2.2.1 rfl
    · rintro rfl; exact undotted.2.2.2 rfl

theorem words_undotted {id : Nat} (linked : tree.history.Linked id)
    (chain : tree.history.view.Chain 0 (fun _ => Undotted) id) :
    depth tree.history id ≤ ((tree.history.names id).flatMap pieces).length ∧
      ∀ word ∈ (tree.history.names id).flatMap pieces, word ≠ ['.'] ∧ word ≠ ['.', '.'] := by
  induction id, linked using tree.chain_induction with
  | root => simp [depth_root, History.names_root]
  | child id linked nonroot ih =>
    obtain ⟨undotted, above⟩ := History.chain_cases nonroot chain
    obtain ⟨length, words⟩ := ih above
    rw [tree.names_child linked nonroot, List.flatMap_append, List.flatMap_singleton,
      tree.depth_parent linked nonroot]
    rcases pieces_cases (tree.name_shaped linked nonroot) undotted with
      ⟨legal, read⟩ | ⟨word, dot, dots, read⟩
    · rw [read]
      refine ⟨by simp only [List.length_append, List.length_cons]; omega, fun other member => ?_⟩
      rcases List.mem_append.mp member with earlier | last
      · exact words other earlier
      · rw [List.mem_singleton.mp last]
        exact legal.2.2
    · rw [read]
      refine ⟨by simp only [List.length_append, List.length_cons]; omega, fun other member => ?_⟩
      rcases List.mem_append.mp member with earlier | last
      · exact words other earlier
      · rcases List.mem_cons.mp last with rfl | empty
        · exact ⟨dot, dots⟩
        · simp at empty
          simp [empty]

-- By depth: a name that ends in '/' costs one component more than the chain is long.
theorem plain_of_readsBack {id : Nat} (linked : tree.history.Linked id)
    (chain : tree.history.view.Chain 0 (fun _ => Undotted) id) (back : tree.history.ReadsBack id) :
    tree.history.view.Chain 0 (PlainIn tree.history.view) id := by
  induction id, linked using tree.chain_induction with
  | root => exact .root
  | child id linked nonroot ih =>
    obtain ⟨undotted, above⟩ := History.chain_cases nonroot chain
    obtain ⟨length, words⟩ := tree.words_undotted linked.parent above
    unfold History.ReadsBack at back ih
    rw [tree.names_child linked nonroot, List.flatMap_append, List.flatMap_singleton] at back
    rcases pieces_cases (tree.name_shaped linked nonroot) undotted with
      ⟨legal, read⟩ | ⟨word, dot, dots, read⟩
    · rw [read, History.walk_concat] at back
      obtain ⟨m, first, entered⟩ := Option.bind_eq_some_iff.mp back
      have there : tree.history.Linked m := History.Linked.walk .root first
      obtain ⟨rfl, _⟩ := tree.enter_descends there legal.2.2.1 legal.2.2.2 entered
      have clear : ¬ tree.history.view.Shadowed (tree.history.parent id) (tree.history.name id) := by
        intro shadowed
        rw [History.enter_shadowed shadowed] at entered
        simp at entered
      exact .child nonroot rfl rfl ⟨legal, clear⟩ (ih above first)
    · rw [read, History.walk_append] at back
      obtain ⟨m, first, rest⟩ := Option.bind_eq_some_iff.mp back
      have there : tree.history.Linked m := History.Linked.walk .root first
      have high := tree.walk_descends .root words first
      have low := tree.walk_descends there
        (by rintro other (_ | ⟨_, _ | ⟨_, ⟨⟩⟩⟩); exacts [⟨dot, dots⟩, by simp]) rest
      have deep := tree.depth_parent linked nonroot
      rw [depth_root] at high
      simp only [List.length_cons, List.length_nil] at low
      simp only [History.parent] at deep length
      omega

end Tree

end RedisVfs
