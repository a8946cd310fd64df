import RedisVfs.Shared.Directory

set_option autoImplicit false

namespace Directory.View

open CString

variable {A : Type} {view after : View A}

structure Closed (view : View A) (inside : A → Prop) : Prop where
  child : ∀ {d e : A}, inside d → e ∈ view.folders d → inside e
  above : ∀ {d e : A}, inside d → view.parent d = some e → inside e

section Closed

variable {inside : A → Prop} (closed : view.Closed inside)

include closed

theorem Closed.named {d e : A} {word : Text} (here : inside d) (found : view.named d word = some e) :
    inside e := by
  unfold View.named at found
  split at found
  · cases found
    exact here
  · split at found
    · exact closed.above here found
    · exact closed.child here (List.mem_of_find?_eq_some found)

theorem Closed.enter {d e : A} {word : Text} (here : inside d) (entered : view.enter d word = some e) :
    inside e := by
  unfold View.enter at entered
  split at entered
  · cases entered
  · exact closed.named here entered

theorem Closed.leads {d e : A} {words : List Text} (here : inside d)
    (led : view.leads d words = some e) : inside e := by
  induction words generalizing d with
  | nil =>
    cases led
    exact here
  | cons word words ih =>
    rw [leads_cons] at led
    obtain ⟨next, entered, rest⟩ := Option.bind_eq_some_iff.mp led
    exact ih (closed.enter here entered) rest

end Closed

theorem Reached.of_subset (fewer : ∀ d, after.folders d ⊆ view.folders d) {root d : A}
    (reached : after.Reached root d) : view.Reached root d := by
  induction reached with
  | root => exact .root
  | child _ listed ih => exact .child ih (fewer _ listed)

theorem Forest.of_subset (forest : view.Forest) (fewer : ∀ d, after.folders d ⊆ view.folders d) :
    after.Forest := fun d d' e listed listed' => forest d d' e (fewer d listed) (fewer d' listed')

/-- Only the lists of one folder are other ones. -/
structure Beside (view after : View A) (cut : A) : Prop where
  name : after.name = view.name
  parent : after.parent = view.parent
  folders : ∀ d, d ≠ cut → after.folders d = view.folders d
  files : ∀ d, d ≠ cut → after.files d = view.files d

section Beside

variable {cut : A} (beside : view.Beside after cut)

include beside

theorem Beside.named {d : A} (other : d ≠ cut) (word : Text) : after.named d word = view.named d word := by
  rw [View.named, View.named, firstBeginning, firstBeginning, beside.folders d other, beside.name, beside.parent]

theorem Beside.seek {d : A} (other : d ≠ cut) (word : Text) (slash : Bool) :
    after.seek d word slash = view.seek d word slash := by
  rw [View.seek, View.seek, beside.files d other, beside.named other]

theorem Beside.enter {d : A} (other : d ≠ cut) (word : Text) : after.enter d word = view.enter d word := by
  rw [← seek_closed, ← seek_closed, beside.seek other]

theorem Beside.leads {d : A} {words : List Text}
    (never : ∀ before, before <+: words → view.leads d before ≠ some cut) :
    after.leads d words = view.leads d words := by
  induction words generalizing d with
  | nil => rfl
  | cons word words ih =>
    have other : d ≠ cut := fun same => never [] List.nil_prefix (congrArg some same)
    rw [leads_cons, leads_cons, beside.enter other]
    cases entered : view.enter d word with
    | none => rfl
    | some next =>
      refine ih fun before within led => ?_
      refine never (word :: before) (List.cons_prefix_cons.mpr ⟨rfl, within⟩) ?_
      rw [leads_cons, entered]
      exact led

theorem Beside.through {inside : A → Prop} (closed : after.Closed inside) (here : inside cut) {d e : A}
    {before words : List Text} (within : before <+: words) (through : view.leads d before = some cut)
    (led : after.leads d words = some e) : inside e := by
  induction before generalizing d words with
  | nil =>
    cases through
    exact closed.leads here led
  | cons word before ih =>
    by_cases same : d = cut
    · subst same
      exact closed.leads here led
    · obtain ⟨rest, rfl⟩ := within
      rw [leads_cons] at through
      rw [List.cons_append, leads_cons, beside.enter same] at led
      obtain ⟨next, entered, through⟩ := Option.bind_eq_some_iff.mp through
      rw [entered, Option.bind_some] at led
      exact ih ⟨rest, rfl⟩ through led

end Beside

def Cuts (view after : View A) (cut : A) : Prop :=
  ∀ d e, e ∈ after.folders d ↔ e ∈ view.folders d ∧ e ≠ cut

section Cuts

variable {cut root : A} (cuts : view.Cuts after cut)

include cuts

theorem Cuts.subset (d : A) : after.folders d ⊆ view.folders d := fun e listed => ((cuts d e).mp listed).1

theorem Cuts.not_below (forest : view.Forest) (top : ∀ d, root ∉ view.folders d) (other : cut ≠ root) {d : A}
    (reached : after.Reached root d) : ¬ view.Reached cut d := by
  induction reached with
  | root =>
    intro below
    cases below with
    | root => exact other rfl
    | child _ listed => exact top _ listed
  | @child d e _ listed ih =>
    obtain ⟨listed, differs⟩ := (cuts d e).mp listed
    intro below
    cases below with
    | root => exact differs rfl
    | child below listed' =>
      cases forest _ _ _ listed' listed
      exact ih below

-- The folders still reached are those reached before that are not the cut one or below it.
theorem Cuts.reached_iff (forest : view.Forest) (top : ∀ d, root ∉ view.folders d) (other : cut ≠ root)
    {d : A} : after.Reached root d ↔ view.Reached root d ∧ ¬ view.Reached cut d := by
  constructor
  · exact fun reached => ⟨reached.of_subset cuts.subset, cuts.not_below forest top other reached⟩
  · rintro ⟨reached, apart⟩
    induction reached with
    | root => exact .root
    | @child d e _ listed ih =>
      have differs : e ≠ cut := by
        rintro rfl
        exact apart .root
      exact .child (ih fun below => apart (.child below listed)) ((cuts d e).mpr ⟨listed, differs⟩)

end Cuts

end Directory.View
