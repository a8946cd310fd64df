import Mathlib.Data.List.Find
import Mathlib.Logic.Function.Basic
import RedisVfs.Shared.CString

set_option autoImplicit false

namespace Directory

open CString

/-- What a path is read against: folders, the names of the files beside them, the folder above. -/
structure View (A : Type) where
  folders : A → List A
  files : A → List (Option Text)
  name : A → Option Text
  parent : A → Option A

def Proper (word : Text) : Prop := word ≠ [] ∧ word ≠ ['.'] ∧ word ≠ ['.', '.']

instance (word : Text) : Decidable (Proper word) := inferInstanceAs (Decidable (_ ∧ _ ∧ _))

namespace View

variable {A B : Type} (view : View A)

inductive Reached (root : A) : A → Prop
  | root : Reached root root
  | child {d e : A} (above : Reached root d) (listed : e ∈ view.folders d) : Reached root e

inductive Chain (root : A) (fits : A → Text → Prop) : A → Prop
  | root : Chain root fits root
  | child {d e : A} {name : Text} (other : e ≠ root) (parent : view.parent e = some d)
      (named : view.name e = some name) (here : fits d name) (above : Chain root fits d) :
      Chain root fits e

/-- One component of the reference walk. Equal names leave it a choice. -/
inductive Step : A → Text → A → Prop
  | empty (d : A) : Step d [] d
  | dot (d : A) : Step d ['.'] d
  | dots {d above : A} (parent : view.parent d = some above) : Step d ['.', '.'] above
  | named {d e : A} {word : Text} (proper : Proper word) (listed : e ∈ view.folders d)
      (called : view.name e = some word) : Step d word e

inductive Walk : A → List Text → A → Prop
  | done (d : A) : Walk d [] d
  | step {d e f : A} {word : Text} {words : List Text} (first : Step view d word e)
      (rest : Walk e words f) : Walk d (word :: words) f

def first (d : A) (word : Text) : Option A :=
  if word = [] ∨ word = ['.'] then some d
  else if word = ['.', '.'] then view.parent d
  else (view.folders d).find? fun e => view.name e = some word

def firstBeginning (d : A) (word : Text) : Option A :=
  (view.folders d).find? fun e => (view.name e).any word.isPrefixOf

def Shadowed (d : A) (word : Text) : Prop :=
  some word ∈ view.files d ∨ some (word ++ ['/']) ∈ view.files d

instance (d : A) (word : Text) : Decidable (view.Shadowed d word) :=
  inferInstanceAs (Decidable (_ ∨ _))

def named (d : A) (word : Text) : Option A :=
  if word = ['.'] then some d
  else if word = ['.', '.'] then view.parent d
  else view.firstBeginning d word

def enter (d : A) (word : Text) : Option A :=
  if view.Shadowed d word then none else view.named d word

def leads (d : A) (words : List Text) : Option A := words.foldlM view.enter d

def seek (d : A) (word : Text) (slash : Bool) : Option A :=
  if some word ∈ view.files d ∨ slash = true ∧ some (word ++ ['/']) ∈ view.files d then none
  else view.named d word

def Within (P : A → Prop) (d : A) (words : List Text) : Prop :=
  ∀ before word e, before ++ [word] <+: words → view.leads d (before ++ [word]) = some e → P e

def Forest : Prop := ∀ d d' e, e ∈ view.folders d → e ∈ view.folders d' → d = d'

def Stuck (start : A) (before : List Text) (word : Text) : Prop :=
  ∀ e f, view.Walk start before e → ¬ view.Step e word f

/-- Nothing at `d` leads a lookup by prefix away from the reference walk. -/
structure StraightAt (start : A) (before : List Text) (word : Text) (d : A) : Prop where
  nonempty : word ≠ []
  shadowed : view.Shadowed d word → view.Stuck start before word
  named : ¬ view.Shadowed d word → Proper word → ∀ e, view.firstBeginning d word = some e →
    view.name e = some word
  missing : ¬ view.Shadowed d word → Proper word → view.firstBeginning d word = none →
    view.Stuck start before word

def Straight (start : A) (words : List Text) : Prop :=
  ∀ before word after d, words = before ++ word :: after →
    before.foldlM view.first start = some d → view.StraightAt start before word d

def Single (start : A) (words : List Text) : Prop :=
  ∀ d e, view.Walk start words d → view.Walk start words e → d = e

section Walks

variable {view}

theorem walk_concat {d f : A} {words : List Text} {word : Text} :
    view.Walk d (words ++ [word]) f ↔ ∃ e, view.Walk d words e ∧ view.Step e word f := by
  constructor
  · induction words generalizing d with
    | nil =>
      rintro (_ | ⟨step, _ | _⟩)
      exact ⟨d, .done d, step⟩
    | cons head words ih =>
      rintro (_ | ⟨step, rest⟩)
      obtain ⟨e, walk, last⟩ := ih rest
      exact ⟨e, .step step walk, last⟩
  · rintro ⟨e, walk, last⟩
    induction walk with
    | done d => exact .step last (.done f)
    | step first rest ih => exact .step first (ih last)

theorem Step.called_of_proper {d e : A} {word : Text} (step : view.Step d word e)
    (proper : Proper word) : view.name e = some word := by
  cases step with
  | empty => exact absurd rfl proper.1
  | dot => exact absurd rfl proper.2.1
  | dots => exact absurd rfl proper.2.2
  | named _ _ called => exact called

theorem step_of_first {d e : A} {word : Text} (found : view.first d word = some e) :
    view.Step d word e := by
  unfold first at found
  split at found
  next still =>
    cases found
    rcases still with rfl | rfl
    · exact .empty d
    · exact .dot d
  next moves =>
    split at found
    next up => subst up; exact .dots found
    next down =>
      obtain ⟨empty, dot⟩ := not_or.mp moves
      exact .named ⟨empty, dot, down⟩ (List.mem_of_find?_eq_some found)
        (by simpa using List.find?_some found)

theorem walk_of_first {d e : A} {words : List Text} (found : words.foldlM view.first d = some e) :
    view.Walk d words e := by
  induction words generalizing d with
  | nil => cases found; exact .done _
  | cons word words ih =>
    obtain ⟨m, step, rest⟩ := Option.bind_eq_some_iff.mp found
    exact .step (step_of_first step) (ih rest)

-- Where the first folder that begins with a word is called so, it is the first called so.
theorem first_of_firstBeginning {d e : A} {word : Text} (proper : Proper word)
    (found : view.firstBeginning d word = some e) (called : view.name e = some word) :
    view.first d word = some e := by
  rw [first, if_neg (not_or.mpr ⟨proper.1, proper.2.1⟩), if_neg proper.2.2]
  unfold firstBeginning at found
  rw [List.find?_eq_some_iff_append] at found ⊢
  obtain ⟨_, before, after, split, none⟩ := found
  refine ⟨by simpa using called, before, after, split, fun other member => ?_⟩
  have differs := none other member
  by_contra same
  have same : view.name other = some word := by simpa using same
  have begins : word.isPrefixOf word = true := List.isPrefixOf_iff_prefix.mpr (List.prefix_refl word)
  simp [same, begins] at differs

end Walks

section Leads

variable {view}

theorem leads_cons (d : A) (word : Text) (words : List Text) :
    view.leads d (word :: words) = (view.enter d word).bind (view.leads · words) := rfl

theorem seek_closed (d : A) (word : Text) : view.seek d word true = view.enter d word := by
  by_cases shadowed : view.Shadowed d word
  · rw [seek, if_pos (by simpa [Shadowed] using shadowed), enter, if_pos shadowed]
  · rw [seek, if_neg (by simpa [Shadowed] using shadowed), enter, if_neg shadowed]

theorem leads_append (d : A) (first second : List Text) :
    view.leads d (first ++ second) = (view.leads d first).bind (view.leads · second) :=
  List.foldlM_append

theorem leads_concat (d : A) (words : List Text) (word : Text) :
    view.leads d (words ++ [word]) = (view.leads d words).bind (view.enter · word) := by
  rw [leads_append]
  exact congrArg _ (funext fun e => (leads_cons e word []).trans (Option.bind_fun_some _))

theorem within_nil (P : A → Prop) (d : A) : view.Within P d [] := by
  intro before word e within
  simp at within

theorem within_cons {P : A → Prop} {d : A} {word : Text} {words : List Text} :
    view.Within P d (word :: words) ↔ ∀ e, view.enter d word = some e → P e ∧ view.Within P e words := by
  constructor
  · intro within e entered
    refine ⟨within [] word e ⟨words, rfl⟩ (by rw [List.nil_append, leads_cons, entered]; rfl), ?_⟩
    intro before other f front leads
    refine within (word :: before) other f (List.cons_prefix_cons.mpr ⟨rfl, front⟩) ?_
    rw [List.cons_append, leads_cons, entered]
    exact leads
  · intro step before other e front leads
    cases before with
    | nil =>
      obtain ⟨rfl, -⟩ := List.cons_prefix_cons.mp front
      rw [List.nil_append, leads_cons] at leads
      obtain ⟨f, entered, same⟩ := Option.bind_eq_some_iff.mp leads
      cases same
      exact (step _ entered).1
    | cons head before =>
      obtain ⟨rfl, later⟩ := List.cons_prefix_cons.mp front
      rw [List.cons_append, leads_cons] at leads
      obtain ⟨f, entered, rest⟩ := Option.bind_eq_some_iff.mp leads
      exact (step f entered).2 before other e later rest

theorem within_concat {P : A → Prop} {d : A} {words : List Text} {word : Text} :
    view.Within P d (words ++ [word]) ↔
      view.Within P d words ∧ ∀ e, view.leads d (words ++ [word]) = some e → P e := by
  constructor
  · intro within
    exact ⟨fun before other e front => within before other e (front.trans (List.prefix_append _ _)),
      fun e => within words word e (List.prefix_refl _)⟩
  · rintro ⟨earlier, last⟩ before other e front leads
    rcases List.prefix_concat_iff.mp front with same | front
    · exact last e (same ▸ leads)
    · exact earlier before other e front leads

theorem Within.start {P : A → Prop} {d : A} {words after : List Text}
    (within : view.Within P d (words ++ after)) : view.Within P d words :=
  fun before word e front => within before word e (front.trans (List.prefix_append _ _))

theorem Within.led {P : A → Prop} {d e : A} {words : List Text} (within : view.Within P d words)
    (start : P d) (leads : view.leads d words = some e) : P e := by
  rcases words.eq_nil_or_concat with rfl | ⟨front, word, rfl⟩
  · cases leads
    exact start
  · rw [List.concat_eq_append] at within leads
    exact within front word e (List.prefix_refl _) leads

end Leads

/-- A view that contains another, seen from its folders. -/
structure Embeds (f : A → B) (P : A → Prop) (small : View A) (large : View B) : Prop where
  folders : ∀ d, P d → large.folders (f d) = (small.folders d).map f
  files : ∀ d, P d → large.files (f d) = small.files d
  name : ∀ d, P d → large.name (f d) = small.name d
  parent : ∀ d, P d → large.parent (f d) = (small.parent d).map f
  child : ∀ d e, P d → e ∈ small.folders d → P e
  above : ∀ d e, P d → small.parent d = some e → P e

namespace Embeds

variable {f : A → B} {P : A → Prop} {small : View A} {large : View B}
  (embeds : Embeds f P small large)

include embeds

theorem step_closed {d e : A} {word : Text} (inside : P d) (step : small.Step d word e) : P e := by
  cases step with
  | empty => exact inside
  | dot => exact inside
  | dots parent => exact embeds.above d e inside parent
  | named _ listed _ => exact embeds.child d e inside listed

theorem step_iff {d : A} {word : Text} {y : B} (inside : P d) :
    large.Step (f d) word y ↔ ∃ e, y = f e ∧ small.Step d word e := by
  constructor
  · intro step
    generalize origin : f d = x at step
    cases step with
    | empty => exact ⟨d, origin.symm, .empty d⟩
    | dot => exact ⟨d, origin.symm, .dot d⟩
    | dots parent =>
      rw [← origin, embeds.parent d inside] at parent
      obtain ⟨e, above, same⟩ := Option.map_eq_some_iff.mp parent
      exact ⟨e, same.symm, .dots above⟩
    | named proper listed called =>
      rw [← origin, embeds.folders d inside] at listed
      obtain ⟨e, member, rfl⟩ := List.mem_map.mp listed
      rw [embeds.name e (embeds.child d e inside member)] at called
      exact ⟨e, rfl, .named proper member called⟩
  · rintro ⟨e, rfl, step⟩
    cases step with
    | empty => exact .empty _
    | dot => exact .dot _
    | dots parent => exact .dots (by rw [embeds.parent d inside, parent]; rfl)
    | named proper listed called =>
      refine .named proper ?_ ?_
      · rw [embeds.folders d inside]
        exact List.mem_map_of_mem listed
      · rw [embeds.name e (embeds.child d e inside listed), called]

theorem walk_iff {d : A} {words : List Text} {y : B} (inside : P d) :
    large.Walk (f d) words y ↔ ∃ e, y = f e ∧ small.Walk d words e := by
  induction words generalizing d with
  | nil =>
    constructor
    · intro walk
      cases walk
      exact ⟨d, rfl, .done d⟩
    · rintro ⟨e, rfl, walk⟩
      cases walk
      exact .done _
  | cons word words ih =>
    constructor
    · rintro (_ | ⟨step, rest⟩)
      obtain ⟨m, rfl, first⟩ := (embeds.step_iff inside).mp step
      obtain ⟨e, same, walk⟩ := (ih (embeds.step_closed inside first)).mp rest
      exact ⟨e, same, .step first walk⟩
    · rintro ⟨e, rfl, _ | ⟨step, rest⟩⟩
      exact .step ((embeds.step_iff inside).mpr ⟨_, rfl, step⟩)
        ((ih (embeds.step_closed inside step)).mpr ⟨e, rfl, rest⟩)

theorem walk_closed {d e : A} {words : List Text} (inside : P d) (walk : small.Walk d words e) :
    P e := by
  induction walk with
  | done => exact inside
  | step first rest ih => exact ih (embeds.step_closed inside first)

theorem reached_iff {root : A} {y : B} (inside : P root) :
    large.Reached (f root) y ↔ ∃ e, y = f e ∧ small.Reached root e := by
  have closed {e : A} (reached : small.Reached root e) : P e := by
    induction reached with
    | root => exact inside
    | child _ listed ih => exact embeds.child _ _ ih listed
  constructor
  · intro reached
    induction reached with
    | root => exact ⟨root, rfl, .root⟩
    | child _ listed ih =>
      obtain ⟨d, rfl, above⟩ := ih
      rw [embeds.folders d (closed above)] at listed
      obtain ⟨e, member, rfl⟩ := List.mem_map.mp listed
      exact ⟨e, rfl, .child above member⟩
  · rintro ⟨e, rfl, reached⟩
    induction reached with
    | root => exact .root
    | child above listed ih =>
      refine .child ih ?_
      rw [embeds.folders _ (closed above)]
      exact List.mem_map_of_mem listed

theorem chain_iff (injective : Function.Injective f) {root d : A} {fits : A → Text → Prop}
    {fits' : B → Text → Prop} (same : ∀ e name, P e → (fits' (f e) name ↔ fits e name)) (inside : P d) :
    large.Chain (f root) fits' (f d) ↔ small.Chain root fits d := by
  constructor
  · intro chain
    generalize origin : f d = y at chain
    induction chain generalizing d with
    | root => exact injective origin ▸ .root
    | child other parent named here above ih =>
      subst origin
      rw [embeds.parent d inside] at parent
      obtain ⟨e, up, rfl⟩ := Option.map_eq_some_iff.mp parent
      have higher : P e := embeds.above d e inside up
      rw [embeds.name d inside] at named
      exact .child (fun root => other (congrArg f root)) up named ((same e _ higher).mp here)
        (ih higher rfl)
  · intro chain
    induction chain with
    | root => exact .root
    | @child e d name other parent named here above ih =>
      have higher : P e := embeds.above d e inside parent
      refine .child (injective.ne other) ?_ ?_ ((same e name higher).mpr here) (ih higher)
      · rw [embeds.parent d inside, parent]
        rfl
      · rw [embeds.name d inside, named]

theorem shadowed_iff {d : A} (inside : P d) (word : Text) :
    large.Shadowed (f d) word ↔ small.Shadowed d word := by
  simp only [Shadowed, embeds.files d inside]

theorem find_map (d : A) (inside : P d) (test : Option Text → Bool) :
    (large.folders (f d)).find? (fun y => test (large.name y)) =
      ((small.folders d).find? fun e => test (small.name e)).map f := by
  rw [embeds.folders d inside, List.find?_map]
  congr 1
  refine List.find?_congr fun e member => ?_
  simp only [Function.comp, embeds.name e (embeds.child d e inside member)]

theorem first_map {d : A} {word : Text} (inside : P d) :
    large.first (f d) word = (small.first d word).map f := by
  unfold first
  split
  · rfl
  · split
    · exact embeds.parent d inside
    · exact embeds.find_map d inside fun name => name = some word

theorem foldlM_first_map {d : A} {words : List Text} (inside : P d) :
    words.foldlM large.first (f d) = (words.foldlM small.first d).map f := by
  induction words generalizing d with
  | nil => rfl
  | cons word words ih =>
    rw [List.foldlM_cons, List.foldlM_cons, embeds.first_map inside]
    cases step : small.first d word with
    | none => rfl
    | some e => exact ih (embeds.step_closed inside (step_of_first step))

theorem named_map {d : A} {word : Text} (inside : P d) :
    large.named (f d) word = (small.named d word).map f := by
  unfold named
  split
  · rfl
  · split
    · exact embeds.parent d inside
    · exact embeds.find_map d inside fun name => name.any word.isPrefixOf

theorem enter_map {d : A} {word : Text} (inside : P d) :
    large.enter (f d) word = (small.enter d word).map f := by
  unfold enter
  by_cases shadowed : small.Shadowed d word
  · rw [if_pos shadowed, if_pos ((embeds.shadowed_iff inside word).mpr shadowed)]
    rfl
  · rw [if_neg shadowed, if_neg (mt (embeds.shadowed_iff inside word).mp shadowed)]
    exact embeds.named_map inside

theorem seek_map {d : A} {word : Text} {slash : Bool} (inside : P d) :
    large.seek (f d) word slash = (small.seek d word slash).map f := by
  unfold seek
  rw [embeds.files d inside, embeds.named_map inside]
  split <;> rfl

theorem named_closed {d e : A} {word : Text} (inside : P d) (found : small.named d word = some e) :
    P e := by
  unfold named at found
  split at found
  · cases found; exact inside
  · split at found
    · exact embeds.above d e inside found
    · exact embeds.child d e inside (List.mem_of_find?_eq_some found)

theorem seek_closed {d e : A} {word : Text} {slash : Bool} (inside : P d)
    (found : small.seek d word slash = some e) : P e := by
  unfold seek at found
  split at found
  · simp at found
  · exact embeds.named_closed inside found

theorem leads_map {d : A} {words : List Text} (inside : P d) :
    large.leads (f d) words = (small.leads d words).map f := by
  unfold leads
  induction words generalizing d with
  | nil => rfl
  | cons word words ih =>
    rw [List.foldlM_cons, List.foldlM_cons, embeds.enter_map inside]
    cases entered : small.enter d word with
    | none => rfl
    | some e =>
      apply ih
      unfold enter at entered
      split at entered
      · simp at entered
      · exact embeds.named_closed inside entered

theorem leads_closed {d e : A} {words : List Text} (inside : P d) (leads : small.leads d words = some e) :
    P e := by
  induction words generalizing d with
  | nil => cases leads; exact inside
  | cons word words ih =>
    rw [leads_cons] at leads
    obtain ⟨m, entered, rest⟩ := Option.bind_eq_some_iff.mp leads
    refine ih ?_ rest
    unfold enter at entered
    split at entered
    · simp at entered
    · exact embeds.named_closed inside entered

theorem within_iff {Q : B → Prop} {R : A → Prop} (same : ∀ e, P e → (Q (f e) ↔ R e)) {d : A}
    {words : List Text} (inside : P d) : large.Within Q (f d) words ↔ small.Within R d words := by
  constructor
  · intro within before word e front leads
    refine (same e (embeds.leads_closed inside leads)).mp (within before word (f e) front ?_)
    rw [embeds.leads_map inside, leads]
    rfl
  · intro within before word y front leads
    rw [embeds.leads_map inside] at leads
    obtain ⟨e, stood, rfl⟩ := Option.map_eq_some_iff.mp leads
    exact (same e (embeds.leads_closed inside stood)).mpr (within before word e front stood)

theorem straightAt_iff {start d : A} {before : List Text} {word : Text} (inside : P start)
    (there : P d) :
    large.StraightAt (f start) before word (f d) ↔ small.StraightAt start before word d := by
  have stuck : large.Stuck (f start) before word ↔ small.Stuck start before word := by
    constructor
    · intro stuck e g walk step
      exact stuck (f e) (f g) ((embeds.walk_iff inside).mpr ⟨e, rfl, walk⟩)
        ((embeds.step_iff (embeds.walk_closed inside walk)).mpr ⟨g, rfl, step⟩)
    · intro stuck y z walk step
      obtain ⟨e, rfl, reach⟩ := (embeds.walk_iff inside).mp walk
      obtain ⟨g, rfl, last⟩ := (embeds.step_iff (embeds.walk_closed inside reach)).mp step
      exact stuck e g reach last
  have shadowed := embeds.shadowed_iff there word
  have beginning : large.firstBeginning (f d) word = (small.firstBeginning d word).map f :=
    embeds.find_map d there fun name => name.any word.isPrefixOf
  have child {e : A} (found : small.firstBeginning d word = some e) :
      large.name (f e) = small.name e :=
    embeds.name e (embeds.child d e there (List.mem_of_find?_eq_some found))
  constructor
  · rintro ⟨nonempty, hidden, named, missing⟩
    simp only [shadowed, stuck, beginning] at hidden named missing
    refine ⟨nonempty, hidden, fun clear proper e found => ?_, fun clear proper found => ?_⟩
    · rw [← child found]
      exact named clear proper (f e) (by rw [found]; rfl)
    · exact missing clear proper (by rw [found]; rfl)
  · rintro ⟨nonempty, hidden, named, missing⟩
    refine ⟨nonempty, ?_, ?_, ?_⟩ <;> simp only [shadowed, stuck, beginning]
    · exact hidden
    · intro clear proper y found
      obtain ⟨e, hit, rfl⟩ := Option.map_eq_some_iff.mp found
      rw [child hit]
      exact named clear proper e hit
    · intro clear proper found
      exact missing clear proper (by simpa using found)

theorem straight_iff {start : A} {words : List Text} (inside : P start) :
    large.Straight (f start) words ↔ small.Straight start words := by
  unfold Straight
  constructor
  · intro straight before word after d split found
    have there : P d := embeds.walk_closed inside (walk_of_first found)
    refine (embeds.straightAt_iff inside there).mp (straight before word after (f d) split ?_)
    rw [embeds.foldlM_first_map inside, found]
    rfl
  · intro straight before word after y split found
    rw [embeds.foldlM_first_map inside] at found
    obtain ⟨d, stood, rfl⟩ := Option.map_eq_some_iff.mp found
    have there : P d := embeds.walk_closed inside (walk_of_first stood)
    exact (embeds.straightAt_iff inside there).mpr (straight before word after d split stood)

end Embeds

end View

end Directory
