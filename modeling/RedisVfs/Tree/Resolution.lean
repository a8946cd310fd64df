import RedisVfs.Tree.History

set_option autoImplicit false

namespace RedisVfs

open CString

-- A file name is compared with the word and, where the path goes on, with the '/' after it.
def fileNamed (word : Text) (slash : Bool) (name : Text) : Bool :=
  name == word || (slash && name == word ++ ['/'])

namespace History

-- The oldest of the files that match.
def findFile (history : History) (d : Nat) (word : Text) (slash : Bool) : Option Nat :=
  (history.childFiles d).reverse.find? fun id => fileNamed word slash (history.name id)

-- The newest of the folders whose names begin with the word.
def findFolder (history : History) (d : Nat) (word : Text) : Option Nat :=
  (history.childFolders d).find? fun id => word.isPrefixOf (history.name id)

def folderNamed (history : History) (d : Nat) (word : Text) : Option Nat :=
  if word = ['.'] then some d
  else if word = ['.', '.'] then some (history.parent d)
  else history.findFolder d word

def lookup (history : History) (d : Nat) (word : Text) (slash : Bool) : Option (Kind × Nat) :=
  match history.findFile d word slash with
  | some id => some (.file, id)
  | none => (history.folderNamed d word).map fun id => (.folder, id)

def enter (history : History) (d : Nat) (word : Text) : Option Nat :=
  match history.lookup d word true with
  | some (.folder, id) => some id
  | _ => none

def walk (history : History) : Nat → List Text → Option Nat
  | d, [] => some d
  | d, word :: words =>
      match history.enter d word with
      | some id => history.walk id words
      | none => none

theorem walk_append (history : History) (d : Nat) (first second : List Text) :
    history.walk d (first ++ second) = (history.walk d first).bind (history.walk · second) := by
  induction first generalizing d with
  | nil => rfl
  | cons word words ih =>
    simp only [List.cons_append, walk]
    cases history.enter d word with
    | none => rfl
    | some id => exact ih id

theorem walk_concat (history : History) (d : Nat) (words : List Text) (word : Text) :
    history.walk d (words ++ [word]) = (history.walk d words).bind (history.enter · word) := by
  rw [walk_append]
  congr 1
  funext id
  simp only [walk]
  cases history.enter id word <;> rfl

theorem enter_eq_some {history : History} {d id : Nat} {word : Text} :
    history.enter d word = some id ↔
      history.findFile d word true = none ∧ history.folderNamed d word = some id := by
  unfold enter lookup
  cases history.findFile d word true with
  | some file => simp
  | none => cases history.folderNamed d word <;> simp

theorem enter_of_findFile {history : History} {d : Nat} {word : Text}
    (absent : history.findFile d word true = none) :
    history.enter d word = history.folderNamed d word := by
  unfold enter lookup
  rw [absent]
  cases history.folderNamed d word <;> rfl

theorem findFile_eq_none {history : History} {d : Nat} {word : Text} {slash : Bool} :
    history.findFile d word slash = none ↔
      ∀ id ∈ history.childFiles d, fileNamed word slash (history.name id) = false := by
  simp [findFile]

theorem mem_of_findFile {history : History} {d id : Nat} {word : Text} {slash : Bool}
    (found : history.findFile d word slash = some id) :
    id ∈ history.childFiles d ∧ fileNamed word slash (history.name id) = true :=
  ⟨List.mem_reverse.mp (List.mem_of_find?_eq_some found),
    List.find?_some (p := fun id => fileNamed word slash (history.name id)) found⟩

theorem findFile_of_lookup {history : History} {d id : Nat} {word : Text} {slash : Bool}
    (found : history.lookup d word slash = some (.file, id)) :
    history.findFile d word slash = some id := by
  unfold lookup at found
  split at found
  next file => cases found; exact file
  next => simp at found

theorem lookup_folder {history : History} {d id : Nat} {word : Text} {slash : Bool}
    (found : history.lookup d word slash = some (.folder, id)) :
    history.findFile d word slash = none ∧ history.folderNamed d word = some id := by
  unfold lookup at found
  split at found
  next => simp at found
  next noFile => exact ⟨noFile, by simpa using found⟩

theorem lookup_eq_none {history : History} {d : Nat} {word : Text} {slash : Bool} :
    history.lookup d word slash = none ↔
      history.findFile d word slash = none ∧ history.folderNamed d word = none := by
  unfold lookup
  cases history.findFile d word slash <;> simp

theorem mem_of_findFolder {history : History} {d id : Nat} {word : Text}
    (found : history.findFolder d word = some id) :
    id ∈ history.childFolders d ∧ word <+: history.name id :=
  ⟨List.mem_of_find?_eq_some found,
    List.isPrefixOf_iff_prefix.mp
      (List.find?_some (p := fun id => word.isPrefixOf (history.name id)) found)⟩

theorem findFolder_parent {history : History} {d id : Nat} {word : Text}
    (found : history.findFolder d word = some id) : history.parent id = d := by
  obtain ⟨entry, held, _, parent⟩ := Journal.mem_children.mp (mem_of_findFolder found).1
  rw [History.parent, Journal.parent_of_entry held, parent]

theorem findFile_none_of_slash {history : History} {d : Nat} {word : Text} (slash : Bool)
    (absent : history.findFile d word true = none) : history.findFile d word slash = none := by
  rw [findFile_eq_none] at absent ⊢
  intro id member
  have differs := absent id member
  cases slash with
  | true => exact differs
  | false => simp_all [fileNamed]

theorem Linked.folderNamed {history : History} {d id : Nat} {word : Text}
    (linked : history.Linked d) (found : history.folderNamed d word = some id) :
    history.Linked id := by
  unfold History.folderNamed at found
  split at found
  · cases found; exact linked
  · split at found
    · cases found; exact linked.parent
    · exact linked.of_child (mem_of_findFolder found).1

theorem Linked.lookup {history : History} {d id : Nat} {word : Text} {slash : Bool}
    (linked : history.Linked d) (found : history.lookup d word slash = some (.folder, id)) :
    history.Linked id := by
  unfold History.lookup at found
  split at found
  · simp at found
  · obtain ⟨_, named, same⟩ := Option.map_eq_some_iff.mp found
    cases same
    exact linked.folderNamed named

theorem Linked.enter {history : History} {d id : Nat} {word : Text}
    (linked : history.Linked d) (found : history.enter d word = some id) : history.Linked id :=
  linked.folderNamed (enter_eq_some.mp found).2

theorem Linked.walk {history : History} {d id : Nat} {words : List Text}
    (linked : history.Linked d) (found : history.walk d words = some id) : history.Linked id := by
  induction words generalizing d with
  | nil => cases found; exact linked
  | cons word words ih =>
    unfold History.walk at found
    split at found
    next next entered => exact ih (linked.enter entered) found
    next => simp at found

end History

-- A path other than "/": the folders on the way, the last name, whether a '/' ends it.
structure Location where
  absolute : Bool
  folders : List Text
  last : Text
  slash : Bool
  foldersFree : ∀ word ∈ folders, Segments.Free '/' word
  lastFree : Segments.Free '/' last
  ends : last = [] → slash = true
  relative : absolute = false →
    (Segments.unite '/' folders ++ (last ++ trail slash)).head? ≠ some '/'

namespace Location

def lead (location : Location) : Text := trail location.absolute

def text (location : Location) : Text :=
  location.lead ++ (Segments.unite '/' location.folders ++ (location.last ++ trail location.slash))

theorem named_of_open {location : Location} (open_ : location.slash = false) : location.last ≠ [] := by
  intro empty
  simpa [open_] using location.ends empty

theorem rest_text (location : Location) :
    Segments.rest '/' location.text = if location.slash then [] else location.last := by
  have lead (text : Text) : Segments.rest '/' (location.lead ++ text) = Segments.rest '/' text := by
    unfold Location.lead
    cases location.absolute with
    | false => rfl
    | true => exact Segments.rest_behind '/' [] text
  rw [text, lead, Segments.rest_unite]
  cases location.slash with
  | false => simpa [trail] using Segments.rest_of_free location.lastFree
  | true => exact Segments.rest_behind '/' location.last []

def offset (location : Location) : Nat :=
  location.lead.length + (Segments.unite '/' location.folders).length

end Location

def segment (body : Text) : Option (List Text × Text × Bool) :=
  if Segments.rest '/' body ≠ [] then
    some (Segments.words '/' body, Segments.rest '/' body, false)
  else
    match (Segments.words '/' body).getLast? with
    | none => none
    | some last => some ((Segments.words '/' body).dropLast, last, true)

theorem segment_none {body : Text} (none : segment body = none) : body = [] := by
  unfold segment at none
  split at none
  · simp at none
  next empty =>
    split at none
    next closed =>
      have words : Segments.words '/' body = [] := by simpa using closed
      simpa [words, not_not.mp empty, eq_comm] using Segments.unite_words_rest '/' body
    next => simp at none

theorem segment_some {body last : Text} {folders : List Text} {slash : Bool}
    (found : segment body = some (folders, last, slash)) :
    body = Segments.unite '/' folders ++ (last ++ trail slash) ∧
      (∀ word ∈ folders, Segments.Free '/' word) ∧ Segments.Free '/' last ∧
        (last = [] → slash = true) := by
  have whole := Segments.unite_words_rest '/' body
  have free := Segments.words_free '/' body
  unfold segment at found
  split at found
  next named =>
    cases found
    exact ⟨by simpa [trail] using whole.symm, free, Segments.rest_free '/' body,
      fun empty => absurd empty named⟩
  next empty =>
    split at found
    next => simp at found
    next last closed =>
      cases found
      have split := List.dropLast_append_getLast? _ closed
      rw [not_not.mp empty, List.append_nil, ← split, Segments.unite_append] at whole
      refine ⟨by simpa [trail] using whole.symm, fun word member => ?_, ?_, fun _ => rfl⟩
      · exact free word (List.dropLast_subset _ member)
      · exact free _ (List.mem_of_getLast? closed)

def locateIn (absolute : Bool) (body : Text) (relative : absolute = false → body.head? ≠ some '/') :
    Option Location :=
  match found : segment body with
  | none => none
  | some (folders, last, slash) =>
      some
        { absolute, folders, last, slash
          foldersFree := (segment_some found).2.1
          lastFree := (segment_some found).2.2.1
          ends := (segment_some found).2.2.2
          relative := (segment_some found).1 ▸ relative }

def locate (path : Text) : Option Location :=
  if absolute : path.head? = some '/' then locateIn true (path.drop 1) (by simp)
  else locateIn false path fun _ => absolute

theorem locateIn_none {absolute : Bool} {body : Text} {relative} :
    locateIn absolute body relative = none → body = [] := by
  intro none
  unfold locateIn at none
  split at none
  next found => exact segment_none found
  next => simp at none

theorem locateIn_some {absolute : Bool} {body : Text} {relative} {location : Location}
    (found : locateIn absolute body relative = some location) :
    location.text = trail absolute ++ body ∧ location.absolute = absolute := by
  unfold locateIn at found
  split at found
  next => simp at found
  next segmented =>
    cases found
    exact ⟨congrArg (trail absolute ++ ·) (segment_some segmented).1.symm, rfl⟩

theorem locate_none {path : Text} (none : locate path = none) : path = [] ∨ path = ['/'] := by
  unfold locate at none
  split at none
  next absolute =>
    have body := locateIn_none none
    cases path with
    | nil => exact .inl rfl
    | cons c body' =>
      have slash : c = '/' := by simpa using absolute
      exact .inr (by simpa [slash] using body)
  next => exact .inl (locateIn_none none)

theorem locate_root {body : Text} (none : locate ('/' :: body) = none) : body = [] := by
  simpa using locate_none none

theorem locate_some {path : Text} {location : Location} (found : locate path = some location) :
    path = location.text ∧ (location.absolute = true ↔ path.head? = some '/') := by
  unfold locate at found
  split at found
  next absolute =>
    obtain ⟨shape, lead⟩ := locateIn_some found
    cases path with
    | nil => simp at absolute
    | cons c body =>
      have slash : c = '/' := by simpa using absolute
      subst slash
      exact ⟨by simpa [trail] using shape.symm, by simp [lead]⟩
  next relative =>
    obtain ⟨shape, lead⟩ := locateIn_some found
    exact ⟨by simpa [trail] using shape.symm, by simp [lead, relative]⟩

namespace History

def place (history : History) (location : Location) : Option (Nat × Text) :=
  match history.walk 0 location.folders with
  | none => none
  | some d =>
      if location.last = [] then some (nowhere, ['/'])
      else
        match history.lookup d location.last location.slash with
        | some (.folder, id) => some (history.parent id, location.last ++ trail location.slash)
        | _ => some (d, location.last ++ trail location.slash)

def placeOfPath (history : History) (body : Text) : Option (Nat × Text) :=
  match locate ('/' :: body) with
  | none => some (nowhere, ['/'])
  | some location => history.place location

def climb (history : History) : Nat → Nat → Text → Option Text
  | fuel, id, output =>
      if id = 0 then some (output ++ ['/'])
      else
        match fuel with
        | 0 => none
        | fuel + 1 => history.climb fuel (history.parent id) ('/' :: history.name id ++ output)

theorem climb_agree {history : History} {fuel fuel' id : Nat} {output text text' : Text}
    (climbed : history.climb fuel id output = some text)
    (climbed' : history.climb fuel' id output = some text') : text = text' := by
  induction fuel generalizing fuel' id output with
  | zero =>
    unfold climb at climbed climbed'
    split at climbed
    next root =>
      rw [if_pos root] at climbed'
      exact Option.some.inj (climbed.symm.trans climbed')
    next => simp at climbed
  | succ fuel ih =>
    unfold climb at climbed climbed'
    split at climbed
    next root =>
      rw [if_pos root] at climbed'
      exact Option.some.inj (climbed.symm.trans climbed')
    next nonroot =>
      rw [if_neg nonroot] at climbed'
      cases fuel' with
      | zero => simp at climbed'
      | succ fuel' => exact ih climbed climbed'

end History

end RedisVfs
