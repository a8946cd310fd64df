import RedisVfs.Shared.CString

set_option autoImplicit false

namespace Resp

open CString

inductive Value where
  | bulk (text : Text)
  | simple (text : Text)
  | error (text : Text)
  | integer (value : Int)
  | nil
  | nilArray
  | array (items : List Value)

def crlf : Text := ['\r', '\n']

def header (kind : Char) (value : Int) : Text := kind :: printLd value ++ crlf

mutual

def Value.wire : Value → Text
  | .bulk text => header '$' text.length ++ text ++ crlf
  | .simple text => '+' :: text ++ crlf
  | .error text => '-' :: text ++ crlf
  | .integer value => header ':' value
  | .nil => header '$' (-1)
  | .nilArray => header '*' (-1)
  | .array items => header '*' items.length ++ wires items

def Value.wires : List Value → Text
  | [] => []
  | item :: items => item.wire ++ wires items

end

def request (argv : List Text) : Value := .array (argv.map .bulk)

theorem decimal_cut {m n : Nat} {more more' : Text}
    (same : decimal m ++ crlf ++ more = decimal n ++ crlf ++ more') : m = n ∧ more = more' := by
  have digits (n : Nat) (more : Text) :
      (decimal n ++ crlf ++ more).takeWhile Char.isDigit = decimal n := by
    rw [List.append_assoc, List.takeWhile_append_of_pos (decimal_digits n)]
    simp [crlf]
  have number : m = n := by
    apply decimal_injective
    rw [← digits m more, same, digits]
  subst number
  exact ⟨rfl, List.append_cancel_left same⟩

theorem bulk_cut {text text' more more' : Text}
    (same : (Value.bulk text).wire ++ more = (Value.bulk text').wire ++ more') :
    text = text' ∧ more = more' := by
  simp only [Value.wire, header, printLd_natCast, List.cons_append, List.cons.injEq, true_and,
    List.append_assoc] at same
  rw [← List.append_assoc, ← List.append_assoc (decimal _)] at same
  obtain ⟨length, rest⟩ := decimal_cut same
  obtain ⟨texts, tails⟩ := List.append_inj rest length
  exact ⟨texts, List.append_cancel_left tails⟩

theorem request_cut {argv argv' : List Text} {more more' : Text}
    (same : (request argv).wire ++ more = (request argv').wire ++ more') :
    argv = argv' ∧ more = more' := by
  simp only [request, Value.wire, header, printLd_natCast, List.cons_append, List.cons.injEq, true_and,
    List.append_assoc, List.length_map] at same
  rw [← List.append_assoc, ← List.append_assoc (decimal _)] at same
  obtain ⟨length, rest⟩ := decimal_cut same
  clear same
  induction argv generalizing argv' with
  | nil =>
    obtain rfl := List.length_eq_zero_iff.mp length.symm
    exact ⟨rfl, rest⟩
  | cons word words ih =>
    cases argv' with
    | nil => simp at length
    | cons word' words' =>
      simp only [List.map_cons, Value.wires, List.append_assoc] at rest
      obtain ⟨rfl, tails⟩ := bulk_cut rest
      obtain ⟨rfl, more⟩ := ih (by simpa using length) tails
      exact ⟨rfl, more⟩

end Resp
