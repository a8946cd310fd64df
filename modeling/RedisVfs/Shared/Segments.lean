import Mathlib.Data.List.TakeWhile
import Mathlib.Data.List.Flatten

set_option autoImplicit false

namespace Segments

variable {A : Type} [DecidableEq A]

def words (sep : A) : List A → List (List A)
  | [] => []
  | c :: text =>
      if c = sep then [] :: words sep text
      else
        match words sep text with
        | [] => []
        | word :: others => (c :: word) :: others

def rest (sep : A) : List A → List A
  | [] => []
  | c :: text => if c = sep ∨ sep ∈ text then rest sep text else c :: text

def unite (sep : A) (closed : List (List A)) : List A := closed.flatMap (· ++ [sep])

def Free (sep : A) (word : List A) : Prop := sep ∉ word

instance (sep : A) (word : List A) : Decidable (Free sep word) := inferInstanceAs (Decidable (sep ∉ word))

omit [DecidableEq A] in
@[simp] theorem unite_nil (sep : A) : unite sep [] = [] := rfl

omit [DecidableEq A] in
@[simp] theorem unite_cons (sep : A) (word : List A) (closed : List (List A)) :
    unite sep (word :: closed) = word ++ sep :: unite sep closed := by
  simp [unite]

omit [DecidableEq A] in
@[simp] theorem unite_append (sep : A) (first second : List (List A)) :
    unite sep (first ++ second) = unite sep first ++ unite sep second := by
  simp [unite]

omit [DecidableEq A] in
theorem free_cons {sep c : A} {text : List A} : Free sep (c :: text) ↔ ¬(c = sep ∨ sep ∈ text) := by
  simp [Free, eq_comm]

theorem words_of_free {sep : A} {text : List A} (free : Free sep text) : words sep text = [] := by
  induction text with
  | nil => rfl
  | cons c text ih =>
    have here : c ≠ sep := fun same => free (by simp [same])
    have later : Free sep text := fun member => free (List.mem_cons_of_mem _ member)
    simp [words, here, ih later]

theorem words_closed {sep : A} {word : List A} (free : Free sep word) (text : List A) :
    words sep (word ++ sep :: text) = word :: words sep text := by
  induction word with
  | nil => simp [words]
  | cons c word ih =>
    have here : c ≠ sep := fun same => free (by simp [same])
    have later : Free sep word := fun member => free (List.mem_cons_of_mem _ member)
    simp [words, here, ih later]

theorem words_unite {sep : A} {closed : List (List A)} (free : ∀ word ∈ closed, Free sep word)
    (text : List A) : words sep (unite sep closed ++ text) = closed ++ words sep text := by
  induction closed with
  | nil => rfl
  | cons word closed ih =>
    rw [unite_cons, List.append_assoc, List.cons_append, words_closed (free word (by simp)),
      ih fun other member => free other (by simp [member])]
    rfl

theorem words_free (sep : A) (text : List A) : ∀ word ∈ words sep text, Free sep word := by
  induction text with
  | nil => simp [words]
  | cons c text ih =>
    by_cases here : c = sep
    · simpa [words, here, Free] using ih
    · cases found : words sep text with
      | nil => simp [words, here, found]
      | cons word others =>
        rw [found] at ih
        have first : Free sep word := ih word (by simp)
        intro other member
        simp only [words, here, if_false, found, List.mem_cons] at member
        rcases member with rfl | member
        · simpa [Free, Ne.symm here] using first
        · exact ih other (by simp [member])

theorem rest_of_free {sep : A} {text : List A} (free : Free sep text) : rest sep text = text := by
  cases text with
  | nil => rfl
  | cons c text => rw [rest, if_neg (free_cons.mp free)]

theorem rest_behind (sep : A) (text after : List A) :
    rest sep (text ++ sep :: after) = rest sep after := by
  induction text with
  | nil => simp [rest]
  | cons c text ih => simpa [rest] using ih

theorem rest_unite (sep : A) (closed : List (List A)) (text : List A) :
    rest sep (unite sep closed ++ text) = rest sep text := by
  induction closed with
  | nil => rfl
  | cons word closed ih => rw [unite_cons, List.append_assoc, List.cons_append, rest_behind, ih]

theorem rest_closed {sep : A} (text : List A) {last : List A} (free : Free sep last) :
    rest sep (text ++ sep :: last) = last := by
  rw [rest_behind, rest_of_free free]

theorem rest_free (sep : A) (text : List A) : Free sep (rest sep text) := by
  induction text with
  | nil => simp [rest, Free]
  | cons c text ih =>
    by_cases later : c = sep ∨ sep ∈ text
    · simpa [rest, later] using ih
    · rw [rest, if_neg later]
      exact free_cons.mpr later

theorem unite_words_rest (sep : A) (text : List A) :
    unite sep (words sep text) ++ rest sep text = text := by
  induction text with
  | nil => simp [words, rest]
  | cons c text ih =>
    by_cases here : c = sep
    · simpa [words, rest, here] using ih
    · by_cases member : sep ∈ text
      · cases found : words sep text with
        | nil =>
          rw [found, unite_nil, List.nil_append] at ih
          have free := rest_free sep text
          rw [ih] at free
          exact absurd member free
        | cons word others =>
          rw [found] at ih
          simpa [words, rest, here, member, found] using ih
      · have whole : Free sep (c :: text) := free_cons.mpr (by simp [here, member])
        rw [words_of_free whole, rest_of_free whole]
        rfl

theorem words_append {sep : A} {first : List A} (closed : rest sep first = []) (second : List A) :
    words sep (first ++ second) = words sep first ++ words sep second := by
  have whole := unite_words_rest sep first
  rw [closed, List.append_nil] at whole
  have united := words_unite (words_free sep first) second
  rwa [whole] at united

end Segments
