import RedisVfs.Tree.History

set_option autoImplicit false

namespace RedisVfs

open CString

def Legal (name : Text) : Prop :=
  name ≠ [] ∧ Segments.Free '/' name ∧ name ≠ ['.'] ∧ name ≠ ['.', '.']

instance (name : Text) : Decidable (Legal name) := inferInstanceAs (Decidable (_ ∧ _ ∧ _ ∧ _))

-- The words of a path to which a '/' is added where it does not end in one.
def components (body : Text) : List Text :=
  Segments.words '/' body ++ if Segments.rest '/' body = [] then [] else [Segments.rest '/' body]

theorem components_free (body : Text) : ∀ word ∈ components body, Segments.Free '/' word := by
  intro word member
  rcases List.mem_append.mp member with closed | last
  · exact Segments.words_free '/' body word closed
  · split at last
    · simp at last
    · rw [List.mem_singleton.mp last]
      exact Segments.rest_free '/' body

theorem getLast?_eq_slash (text : Text) :
    text.getLast? = some '/' ↔ text ≠ [] ∧ Segments.rest '/' text = [] := by
  have whole := Segments.unite_words_rest '/' text
  by_cases last : Segments.rest '/' text = []
  · rw [last, List.append_nil] at whole
    rcases (Segments.words '/' text).eq_nil_or_concat with words | ⟨front, word, words⟩
    · have empty : text = [] := by simpa [words] using whole.symm
      simp [empty]
    · have shape : text = (Segments.unite '/' front ++ word) ++ ['/'] := by
        simpa [words] using whole.symm
      exact iff_of_true (by rw [shape]; exact List.getLast?_concat) ⟨by simp [shape], last⟩
  · have ends : text.getLast? = (Segments.rest '/' text).getLast? := by
      conv_lhs => rw [← whole]
      exact List.getLast?_append_of_ne_nil _ last
    have free := Segments.rest_free '/' text
    rw [ends]
    constructor
    · intro same
      exact absurd (List.mem_of_getLast? same) free
    · intro empty
      exact absurd empty.2 last

theorem words_close (text : Text) :
    Segments.words '/' (text ++ ['/']) = Segments.words '/' text ++ [Segments.rest '/' text] := by
  conv_lhs => rw [← Segments.unite_words_rest '/' text, List.append_assoc]
  rw [Segments.words_unite (Segments.words_free '/' text), Segments.words_closed (Segments.rest_free '/' text)]
  rfl

theorem components_slash (body : Text) : components ('/' :: body) = [] :: components body := by
  simp [components, Segments.words, Segments.rest]

theorem components_unite {closed : List Text} (free : ∀ word ∈ closed, Segments.Free '/' word)
    (text : Text) : components (Segments.unite '/' closed ++ text) = closed ++ components text := by
  rw [components, Segments.words_unite free, Segments.rest_unite, List.append_assoc]
  rfl

theorem components_append {first : Text} (closed : Segments.rest '/' first = []) (second : Text) :
    components (first ++ second) = components first ++ components second := by
  have whole := Segments.unite_words_rest '/' first
  rw [closed, List.append_nil] at whole
  have words : components first = Segments.words '/' first := by
    rw [components, if_pos closed, List.append_nil]
  rw [words]
  conv_lhs => rw [← whole]
  exact components_unite (Segments.words_free '/' first) second

theorem components_named {word : Text} {slash : Bool} (free : Segments.Free '/' word)
    (ends : word = [] → slash = true) : components (word ++ trail slash) = [word] := by
  cases slash with
  | true =>
    have closed : word ++ trail true = word ++ '/' :: [] := rfl
    rw [components, closed, Segments.words_closed free, Segments.rest_behind]
    simp [Segments.words, Segments.rest]
  | false =>
    have named : word ≠ [] := fun empty => by simpa using ends empty
    have bare : word ++ trail false = word := List.append_nil _
    rw [components, bare, Segments.words_of_free free, Segments.rest_of_free free, if_neg named,
      List.nil_append]

theorem components_relative {path : Text} (nonempty : path ≠ []) (relative : path.head? ≠ some '/') :
    ∃ word words, components path = word :: words ∧ word ≠ [] := by
  have whole := Segments.unite_words_rest '/' path
  unfold components
  cases closed : Segments.words '/' path with
  | nil =>
    rw [closed, Segments.unite_nil, List.nil_append] at whole
    rw [whole, if_neg nonempty]
    exact ⟨path, [], rfl, nonempty⟩
  | cons word words =>
    refine ⟨word, _, rfl, ?_⟩
    rintro rfl
    apply relative
    rw [← whole, closed]
    rfl

def origin (d : Int) (path : Text) : Int := if path.head? = some '/' then 0 else d

def pathLead (path : Text) : Text := trail (path.head? = some '/')

def pathWords (path : Text) : List Text := Segments.words '/' (path.drop (pathLead path).length)

theorem origin_eq (d : Int) (path : Text) : origin d path = if pathLead path = [] then d else 0 := by
  by_cases slash : path.head? = some '/' <;> simp [origin, pathLead, slash, trail]

theorem pathLead_append (path : Text) : pathLead path ++ path.drop (pathLead path).length = path := by
  cases path with
  | nil => rfl
  | cons c path =>
    by_cases slash : c = '/' <;> simp [pathLead, slash, trail]

theorem rest_drop_lead (path : Text) :
    Segments.rest '/' (path.drop (pathLead path).length) = Segments.rest '/' path := by
  cases path with
  | nil => rfl
  | cons c path =>
    by_cases slash : c = '/'
    · simpa [pathLead, slash, trail] using (Segments.rest_behind '/' [] path).symm
    · simp [pathLead, slash, trail]

theorem components_drop_lead (path : Text) :
    components (path.drop (pathLead path).length) =
      pathWords path ++ if Segments.rest '/' path = [] then [] else [Segments.rest '/' path] := by
  rw [components, rest_drop_lead]
  rfl

theorem pathWords_closed {path : Text} (nonempty : path ≠ []) (d : Int) :
    origin d (if path.getLast? ≠ some '/' then path ++ ['/'] else path) = origin d path ∧
      pathWords (if path.getLast? ≠ some '/' then path ++ ['/'] else path) =
        components (path.drop (pathLead path).length) := by
  have ends := getLast?_eq_slash path
  have last := rest_drop_lead path
  by_cases closed : path.getLast? = some '/'
  · rw [if_neg (not_not.mpr closed)]
    refine ⟨rfl, ?_⟩
    rw [components, last, (ends.mp closed).2, if_pos rfl, List.append_nil, pathWords]
  · have open_ : Segments.rest '/' path ≠ [] := fun empty => closed (ends.mpr ⟨nonempty, empty⟩)
    have lead : pathLead (path ++ ['/']) = pathLead path := by
      cases path with
      | nil => exact absurd rfl nonempty
      | cons c path => rfl
    have size := congrArg List.length (pathLead_append path)
    rw [List.length_append] at size
    have drop : (path ++ ['/']).drop (pathLead path).length = path.drop (pathLead path).length ++ ['/'] :=
      List.drop_append_of_le_length (by omega)
    rw [if_pos closed]
    refine ⟨by rw [origin_eq, origin_eq, lead], ?_⟩
    rw [pathWords, lead, drop, words_close, components, last, if_neg open_]

theorem pathWords_free (path : Text) : ∀ word ∈ pathWords path, Segments.Free '/' word :=
  Segments.words_free '/' _

theorem path_parts (path : Text) :
    pathLead path ++ (Segments.unite '/' (pathWords path) ++ Segments.rest '/' path) = path := by
  conv_rhs => rw [← pathLead_append path, ← Segments.unite_words_rest '/' (path.drop _), rest_drop_lead]
  rfl

def pathOf (path : Text) (words : List Text) : Text := pathLead path ++ Segments.unite '/' words

theorem pathOf_lead {path : Text} {words after : List Text} (split : pathWords path = words ++ after) :
    pathLead (pathOf path words) = pathLead path := by
  have parts := path_parts path
  unfold pathOf
  cases lead : pathLead path with
  | cons c rest =>
    have slash : c :: rest = ['/'] := by
      rw [← lead]
      unfold pathLead trail at *
      split <;> simp_all
    rw [slash]
    simp [pathLead, trail]
  | nil =>
    have relative : path.head? ≠ some '/' := by
      intro slash
      simp [pathLead, slash, trail] at lead
    cases words with
    | nil => rfl
    | cons word words =>
      rw [lead, split] at parts
      have head : (Segments.unite '/' (word :: words)).head? = path.head? := by
        rw [← parts]
        simp
      rw [List.nil_append, pathLead, head]
      simp [relative, trail]

theorem pathOf_words {path : Text} {words after : List Text} (split : pathWords path = words ++ after) :
    pathWords (pathOf path words) = words := by
  have free : ∀ word ∈ words, Segments.Free '/' word := fun word member =>
    pathWords_free path word (by rw [split]; exact List.mem_append_left _ member)
  have again := Segments.words_unite free []
  rw [List.append_nil, Segments.words, List.append_nil] at again
  rw [pathWords, pathOf_lead split, pathOf, List.drop_left, again]

theorem pathOf_origin {path : Text} {words after : List Text} (split : pathWords path = words ++ after)
    (d : Int) : origin d (pathOf path words) = origin d path := by
  rw [origin_eq, origin_eq, pathOf_lead split]

theorem pathOf_prefix {path : Text} {words after : List Text} (split : pathWords path = words ++ after) :
    pathOf path words <+: path := by
  refine ⟨Segments.unite '/' after ++ Segments.rest '/' path, ?_⟩
  conv_rhs => rw [← path_parts path, split, Segments.unite_append]
  simp [pathOf]

theorem pathOf_ends {path : Text} {words : List Text} (nonempty : pathOf path words ≠ []) :
    (pathOf path words).getLast? = some '/' := by
  unfold pathOf at nonempty ⊢
  rcases words.eq_nil_or_concat with rfl | ⟨front, word, rfl⟩
  · unfold pathLead trail at *
    split at nonempty <;> simp_all
  · have closing : pathLead path ++ Segments.unite '/' (front.concat word) =
        pathLead path ++ (Segments.unite '/' front ++ word) ++ ['/'] := by
      simp
    rw [closing]
    exact List.getLast?_concat

theorem pathWords_of_start {front path : Text} (ends : front.getLast? = some '/')
    (within : front <+: path) : pathWords front <+: pathWords path := by
  obtain ⟨after, rfl⟩ := within
  have parts := path_parts front
  rw [((getLast?_eq_slash front).mp ends).2, List.append_nil] at parts
  have lead : pathLead (front ++ after) = pathLead front := by
    cases front with
    | nil => simp at ends
    | cons c front => rfl
  have whole : front ++ after = pathLead front ++ (Segments.unite '/' (pathWords front) ++ after) := by
    conv_lhs => rw [← parts]
    simp
  refine ⟨Segments.words '/' after, ?_⟩
  rw [pathWords.eq_def (front ++ after), lead, whole, List.drop_left,
    Segments.words_unite (pathWords_free front)]

end RedisVfs
