import Mathlib.Data.List.Induction
import RedisVfs.Shared.Directory
import RedisVfs.Tree.Resolution

set_option autoImplicit false

namespace RedisVfs

open CString Directory

namespace History

def view (history : History) : View Nat where
  folders d := history.childFolders d
  files d := (history.childFiles d).map fun id => some (history.name id)
  name id := some (history.name id)
  parent id := some (history.parent id)

theorem reached_iff {history : History} {id : Nat} :
    history.view.Reached 0 id ↔ history.Linked id := by
  constructor
  · intro reached
    induction reached with
    | root => exact .root
    | child _ listed ih => exact ih.of_child listed
  · intro linked
    induction linked with
    | root => exact .root
    | child found kind above ih =>
      exact .child ih (Journal.mem_children.mpr ⟨_, found, kind, rfl⟩)

theorem shadowed_iff {history : History} {d : Nat} {word : Text} :
    history.view.Shadowed d word ↔ history.findFile d word true ≠ none := by
  rw [Ne, findFile_eq_none]
  simp only [View.Shadowed, view, List.mem_map, Option.some.injEq, fileNamed, Bool.true_and,
    Bool.or_eq_false_iff, beq_eq_false_iff_ne, not_forall, not_and_or, not_not]
  constructor
  · rintro (⟨id, member, same⟩ | ⟨id, member, same⟩)
    · exact ⟨id, member, .inl same⟩
    · exact ⟨id, member, .inr same⟩
  · rintro ⟨id, member, same | same⟩
    · exact .inl ⟨id, member, same⟩
    · exact .inr ⟨id, member, same⟩

theorem firstBeginning_eq (history : History) (d : Nat) (word : Text) :
    history.view.firstBeginning d word = history.findFolder d word := rfl

theorem enter_shadowed {history : History} {d : Nat} {word : Text}
    (shadowed : history.view.Shadowed d word) : history.enter d word = none := by
  have present := shadowed_iff.mp shadowed
  cases entered : history.enter d word with
  | none => rfl
  | some id => exact absurd (enter_eq_some.mp entered).1 present

theorem enter_clear {history : History} {d : Nat} {word : Text}
    (clear : ¬ history.view.Shadowed d word) : history.enter d word = history.folderNamed d word :=
  enter_of_findFile (not_not.mp (shadowed_iff.not.mp clear))

theorem view_named (history : History) (d : Nat) (word : Text) :
    history.view.named d word = history.folderNamed d word := rfl

theorem view_enter (history : History) (d : Nat) (word : Text) :
    history.view.enter d word = history.enter d word := by
  unfold View.enter
  split
  next shadowed => exact (enter_shadowed shadowed).symm
  next clear => exact (enter_clear clear).symm

theorem view_leads (history : History) (d : Nat) (words : List Text) :
    history.view.leads d words = history.walk d words := by
  unfold View.leads
  induction words generalizing d with
  | nil => rfl
  | cons word words ih =>
    rw [List.foldlM_cons, view_enter, walk]
    cases history.enter d word with
    | none => rfl
    | some id => exact ih id

theorem view_seek {history : History} {d e : Nat} {word : Text} {slash : Bool} :
    history.view.seek d word slash = some e ↔ history.lookup d word slash = some (.folder, e) := by
  have shadowed : some word ∈ history.view.files d ∨
        slash = true ∧ some (word ++ ['/']) ∈ history.view.files d ↔
      history.findFile d word slash ≠ none := by
    cases slash with
    | false => simp [findFile_eq_none, view, fileNamed]
    | true => simpa [View.Shadowed] using @shadowed_iff history d word
  unfold View.seek lookup
  rw [view_named]
  cases noFile : history.findFile d word slash with
  | some id => rw [if_pos (shadowed.mpr (by simp [noFile]))]; simp
  | none =>
    rw [if_neg (mt shadowed.mp (by simp [noFile]))]
    simp

theorem folderNamed_proper {history : History} {d : Nat} {word : Text} (proper : Proper word) :
    history.folderNamed d word = history.findFolder d word := by
  rw [folderNamed, if_neg proper.2.1, if_neg proper.2.2]

end History

namespace Tree

variable (tree : Tree)

def depth (history : History) (id : Nat) : Nat :=
  if below : id ≠ 0 ∧ history.parent id < id then depth history (history.parent id) + 1 else 0
termination_by id
decreasing_by exact below.2

theorem depth_root (history : History) : depth history 0 = 0 := by
  rw [depth]; simp

theorem depth_parent {id : Nat} (linked : tree.history.Linked id) (nonroot : id ≠ 0) :
    depth tree.history id = depth tree.history (tree.history.parent id) + 1 := by
  rw [depth, dif_pos ⟨nonroot, (tree.parent_lists linked nonroot).2⟩]

theorem depth_child {d id : Nat} (linked : tree.history.Linked d)
    (member : id ∈ tree.history.childFolders d) :
    depth tree.history id = depth tree.history d + 1 := by
  have below : tree.history.Linked id := linked.of_child member
  obtain ⟨entry, found, _, parent⟩ := Journal.mem_children.mp member
  have nonroot : id ≠ 0 := by have := Journal.entryAt_le found; omega
  rw [tree.depth_parent below nonroot, History.parent, Journal.parent_of_entry found, parent]

end Tree

def depthBy (depth : Nat) (word : Text) : Nat :=
  if word = [] ∨ word = ['.'] then depth
  else if word = ['.', '.'] then depth - 1
  else depth + 1

namespace Tree

variable (tree : Tree)

theorem step_depth {d e : Nat} {word : Text} (linked : tree.history.Linked d)
    (step : tree.history.view.Step d word e) :
    tree.history.Linked e ∧ depth tree.history e = depthBy (depth tree.history d) word := by
  cases step with
  | empty => exact ⟨linked, by simp [depthBy]⟩
  | dot => exact ⟨linked, by simp [depthBy]⟩
  | dots parent =>
    cases parent
    refine ⟨linked.parent, ?_⟩
    by_cases root : d = 0
    · simp [root, depthBy, depth_root, History.parent]
    · rw [tree.depth_parent linked root]
      simp [depthBy]
  | named proper listed called =>
    refine ⟨linked.of_child listed, ?_⟩
    rw [tree.depth_child linked listed, depthBy, if_neg (not_or.mpr ⟨proper.1, proper.2.1⟩),
      if_neg proper.2.2]

theorem walk_depth {d e : Nat} {words : List Text} (linked : tree.history.Linked d)
    (walk : tree.history.view.Walk d words e) :
    depth tree.history e = words.foldl depthBy (depth tree.history d) := by
  induction walk with
  | done => rfl
  | step first rest ih =>
    obtain ⟨below, deep⟩ := tree.step_depth linked first
    rw [ih below, deep]
    rfl

end Tree

namespace History

-- The walk of the code ends where the reference walk can, and stops only where it cannot go on.
def Agrees (history : History) (start : Nat) (words : List Text) : Prop :=
  match history.walk start words with
  | some e => history.view.Walk start words e
  | none => ∀ e, ¬ history.view.Walk start words e

theorem agrees_nil (history : History) (start : Nat) : history.Agrees start [] := .done start

theorem walk_concat_of_straightAt {history : History} {start d : Nat} {before : List Text}
    {word : Text} (walk : history.walk start before = some d)
    (straight : history.view.StraightAt start before word d) :
    (∃ e, history.walk start (before ++ [word]) = some e ∧ history.view.first d word = some e) ∨
      history.walk start (before ++ [word]) = none ∧ history.view.Stuck start before word := by
  rw [walk_concat, walk, Option.bind_some]
  by_cases shadowed : history.view.Shadowed d word
  · exact .inr ⟨enter_shadowed shadowed, straight.shadowed shadowed⟩
  · rw [enter_clear shadowed]
    by_cases dot : word = ['.']
    · exact .inl ⟨d, by simp [folderNamed, dot], by simp [View.first, dot]⟩
    · by_cases dots : word = ['.', '.']
      · exact .inl ⟨history.parent d, by simp [folderNamed, dots], by simp [View.first, dots, view]⟩
      · have proper : Proper word := ⟨straight.nonempty, dot, dots⟩
        rw [folderNamed_proper proper]
        cases found : history.findFolder d word with
        | none => exact .inr ⟨rfl, straight.missing shadowed proper found⟩
        | some e =>
          exact .inl ⟨e, rfl, View.first_of_firstBeginning proper found
            (straight.named shadowed proper e found)⟩

theorem not_walk_of_stuck {history : History} {start : Nat} {before : List Text} {word : Text}
    (stuck : history.view.Stuck start before word) (e : Nat) :
    ¬ history.view.Walk start (before ++ [word]) e := by
  intro walk
  obtain ⟨m, reach, step⟩ := View.walk_concat.mp walk
  exact stuck m e reach step

-- Induction on the components read: the code stands where the first-choice walk does, or both stopped.
theorem walk_of_straight {history : History} {start : Nat} {words : List Text}
    (straight : history.view.Straight start words) (before after : List Text)
    (split : words = before ++ after) :
    (∃ d, history.walk start before = some d ∧ before.foldlM history.view.first start = some d) ∨
      history.walk start before = none ∧ ∀ e, ¬ history.view.Walk start before e := by
  induction before using List.reverseRecOn generalizing after with
  | nil => exact .inl ⟨start, rfl, rfl⟩
  | append_singleton before word ih =>
    have split' : words = before ++ word :: after := by simpa using split
    rcases ih (word :: after) split' with ⟨d, walk, first⟩ | ⟨walk, none⟩
    · have at_ := straight before word after d split' first
      rcases walk_concat_of_straightAt walk at_ with
        ⟨e, walk', first'⟩ | ⟨walk', stuck⟩
      · refine .inl ⟨e, walk', ?_⟩
        rw [List.foldlM_append, first]
        simpa using first'
      · exact .inr ⟨walk', not_walk_of_stuck stuck⟩
    · refine .inr ⟨by rw [walk_concat, walk]; rfl, fun e reach => ?_⟩
      obtain ⟨m, reach', _⟩ := View.walk_concat.mp reach
      exact none m reach'

theorem agrees_of_straight {history : History} {start : Nat} {words : List Text}
    (straight : history.view.Straight start words) {before after : List Text}
    (split : words = before ++ after) : history.Agrees start before := by
  rcases walk_of_straight straight before after split with ⟨d, walk, first⟩ | ⟨walk, none⟩
  · rw [Agrees, walk]
    exact View.walk_of_first first
  · rw [Agrees, walk]
    exact none

end History

namespace Tree

variable (tree : Tree)

-- An empty component makes the code go down, or stop; the reference walk stays.
theorem empty_disagrees {start d : Nat} {before : List Text} (linked : tree.history.Linked start)
    (walk : tree.history.walk start before = some d)
    (reach : tree.history.view.Walk start before d) : ¬ tree.history.Agrees start (before ++ [[]]) := by
  have stays : tree.history.view.Walk start (before ++ [[]]) d :=
    View.walk_concat.mpr ⟨d, reach, .empty d⟩
  intro agrees
  unfold History.Agrees at agrees
  rw [History.walk_concat, walk, Option.bind_some] at agrees
  cases entered : tree.history.enter d [] with
  | none =>
    rw [entered] at agrees
    exact agrees d stays
  | some e =>
    rw [entered] at agrees
    have there : tree.history.Linked d := linked.walk walk
    have child := (History.mem_of_findFolder (History.enter_eq_some.mp entered).2).1
    have deeper := tree.depth_child there child
    have level := (tree.walk_depth linked agrees).trans (tree.walk_depth linked stays).symm
    omega

-- Where the code agrees after every prefix, it stands where the first-choice walk does.
theorem walk_of_agrees {start d : Nat} {before : List Text} (linked : tree.history.Linked start)
    (agrees : ∀ front, front <+: before → tree.history.Agrees start front)
    (first : before.foldlM tree.history.view.first start = some d) :
    tree.history.walk start before = some d := by
  induction before using List.reverseRecOn generalizing d with
  | nil => exact first
  | append_singleton before word ih =>
    rw [List.foldlM_append] at first
    obtain ⟨m, stood, last⟩ := Option.bind_eq_some_iff.mp first
    have last : tree.history.view.first m word = some d := by simpa using last
    have walk := ih (fun front prefix_ => agrees front (prefix_.trans (List.prefix_append _ _))) stood
    have reach := View.walk_of_first stood
    have here := agrees _ (List.prefix_refl _)
    by_cases empty : word = []
    · subst empty
      exact absurd here (tree.empty_disagrees linked walk reach)
    · have onward := View.walk_concat.mpr ⟨m, reach, View.step_of_first last⟩
      unfold History.Agrees at here
      rw [History.walk_concat, walk, Option.bind_some] at here ⊢
      cases entered : tree.history.enter m word with
      | none =>
        rw [entered] at here
        exact absurd onward (here d)
      | some e =>
        rw [entered] at here
        have named := (History.enter_eq_some.mp entered).2
        by_cases dot : word = ['.']
        · simp [History.folderNamed, View.first, dot] at named last
          rw [← named, ← last]
        · by_cases dots : word = ['.', '.']
          · simp [History.folderNamed, View.first, dots, History.view] at named last
            rw [← named, ← last]
          · have proper : Proper word := ⟨empty, dot, dots⟩
            rw [History.folderNamed_proper proper, ← History.firstBeginning_eq] at named
            obtain ⟨m', _, step⟩ := View.walk_concat.mp here
            have called := step.called_of_proper proper
            rw [View.first_of_firstBeginning proper named called] at last
            exact last

theorem straight_of_agrees {start : Nat} {words : List Text} (linked : tree.history.Linked start)
    (agrees : ∀ front, front <+: words → tree.history.Agrees start front) :
    tree.history.view.Straight start words := by
  intro before word after d split first
  have onward : before ++ [word] <+: words := ⟨after, by simp [split]⟩
  have walk := tree.walk_of_agrees linked
    (fun front prefix_ => agrees front (prefix_.trans ((List.prefix_append _ _).trans onward))) first
  have reach := View.walk_of_first first
  have here := agrees _ onward
  have stuck (none : tree.history.enter d word = none) : tree.history.view.Stuck start before word := by
    unfold History.Agrees at here
    rw [History.walk_concat, walk, Option.bind_some, none] at here
    exact fun e f reach step => here f (View.walk_concat.mpr ⟨e, reach, step⟩)
  refine ⟨?_, fun shadowed => stuck (History.enter_shadowed shadowed), ?_, ?_⟩
  · rintro rfl
    exact tree.empty_disagrees linked walk reach here
  · intro clear proper e found
    unfold History.Agrees at here
    rw [History.walk_concat, walk, Option.bind_some, History.enter_clear clear,
      History.folderNamed_proper proper, ← History.firstBeginning_eq, found] at here
    obtain ⟨m, _, step⟩ := View.walk_concat.mp here
    exact step.called_of_proper proper
  · intro clear proper found
    apply stuck
    rw [History.enter_clear clear, History.folderNamed_proper proper]
    exact found

theorem agrees_iff_straight {start : Nat} {words : List Text} (linked : tree.history.Linked start) :
    (∀ front, front <+: words → tree.history.Agrees start front) ↔
      tree.history.view.Straight start words :=
  ⟨tree.straight_of_agrees linked, fun straight _ ⟨_, split⟩ =>
    History.agrees_of_straight straight split.symm⟩

end Tree

def Location.Within {A : Type} (location : Location) (view : View A) (P : A → Prop) (base : A) : Prop :=
  view.Within P base location.folders ∧
    ∀ d e, view.leads base location.folders = some d → location.last ≠ [] →
      view.seek d location.last location.slash = some e → P e

def ParsesWithin {A : Type} (view : View A) (P : A → Prop) (base : A) (path : Text) : Prop :=
  ∀ location, locate path = some location → location.Within view P base

theorem parsesWithin_iff {A B : Type} {f : A → B} {P : A → Prop} {small : View A} {large : View B}
    (embeds : View.Embeds f P small large) {Q : B → Prop} {R : A → Prop}
    (same : ∀ e, P e → (Q (f e) ↔ R e)) {base : A} (inside : P base) (path : Text) :
    ParsesWithin large Q (f base) path ↔ ParsesWithin small R base path := by
  refine forall_congr' fun location => imp_congr_right fun _ => ?_
  refine and_congr (embeds.within_iff same inside) ?_
  constructor
  · intro within d e leads named found
    have there := embeds.leads_closed inside leads
    refine (same e (embeds.seek_closed there found)).mp (within (f d) (f e) ?_ named ?_)
    · rw [embeds.leads_map inside, leads]
      rfl
    · rw [embeds.seek_map there, found]
      rfl
  · intro within y z leads named found
    rw [embeds.leads_map inside] at leads
    obtain ⟨d, stood, rfl⟩ := Option.map_eq_some_iff.mp leads
    have there := embeds.leads_closed inside stood
    rw [embeds.seek_map there] at found
    obtain ⟨e, hit, rfl⟩ := Option.map_eq_some_iff.mp found
    exact (same e (embeds.seek_closed there hit)).mpr (within d e stood named hit)

end RedisVfs
