import RedisVfs.Refinement.Building
import RedisVfs.Refinement.Viewing

set_option autoImplicit false

namespace RedisVfs

open CString Directory

def Store.PathAgrees (store : Store) (d : Int) (path : Text) : Prop :=
  ∃ r, (vfsGetDirIdFromPath d path path.length).run execute store = (.ok r, store) ∧
    (r ≠ -1 → store.view.Walk (origin d path) (pathWords path) r) ∧
      (r = -1 → ∀ e, ¬ store.view.Walk (origin d path) (pathWords path) e)

namespace Tree

variable (tree : Tree)

theorem pathAgrees_iff {d start : Nat} (there : tree.history.Linked start) {path : Text}
    (from_ : origin d path = start) (within : tree.history.view.Within (· < 2 ^ 31) start (pathWords path)) :
    tree.store.PathAgrees d path ↔ tree.history.Agrees start (pathWords path) := by
  have run := tree.dirId_run from_ there within
  unfold Store.PathAgrees History.Agrees
  simp only [run, from_, Prod.mk.injEq, Except.ok.injEq, and_true, exists_eq_left',
    tree.view_embeds.walk_iff there, asId_eq_neg_one]
  cases walk : tree.history.walk start (pathWords path) with
  | none =>
    simp only [asId, ne_eq, not_true_eq_false, false_implies, true_and, true_implies]
    constructor
    · exact fun none e reach => none e ⟨e, rfl, reach⟩
    · rintro none _ ⟨e, _, reach⟩
      exact none e reach
  | some e => simp [asId]

theorem agrees_iff {d : Nat} (linked : tree.history.Linked d) {path : Text}
    (ends : path.getLast? = some '/')
    (within : tree.store.view.Within (· < 2 ^ 31) (origin d path) (pathWords path)) :
    (∀ part, part <+: path → part.getLast? = some '/' → tree.store.PathAgrees d part) ↔
      tree.store.view.Straight (origin d path) (pathWords path) := by
  obtain ⟨start, from_, there⟩ := tree.origin_linked linked path
  rw [from_, tree.within_store there] at within
  rw [from_, tree.view_embeds.straight_iff there, ← tree.agrees_iff_straight there]
  have partOrigin {part : Text} (within : part <+: path) (partEnds : part.getLast? = some '/') :
      origin d part = start := by
    obtain ⟨after, rfl⟩ := within
    cases part with
    | nil => simp at partEnds
    | cons c part => exact from_
  have partAgrees {part : Text} (front : part <+: path) (partEnds : part.getLast? = some '/') :
      tree.store.PathAgrees d part ↔ tree.history.Agrees start (pathWords part) := by
    refine tree.pathAgrees_iff there (partOrigin front partEnds) ?_
    obtain ⟨after, split⟩ := pathWords_of_start partEnds front
    exact (split ▸ within).start
  constructor
  · intro agrees front ⟨after, split⟩
    by_cases empty : pathOf path front = []
    · have none : front = [] := by
        rw [← pathOf_words split.symm, empty]
        rfl
      rw [none]
      exact tree.history.agrees_nil start
    · have partEnds := pathOf_ends empty
      have within := pathOf_prefix split.symm
      rw [← pathOf_words split.symm]
      exact (partAgrees within partEnds).mp (agrees _ within partEnds)
  · intro agrees part within partEnds
    exact (partAgrees within partEnds).mpr (agrees _ (pathWords_of_start partEnds within))

end Tree

end RedisVfs
