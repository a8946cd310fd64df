import RedisVfs.Wire.Spelling

set_option autoImplicit false

namespace Hiredis

open CString

-- The text ends in a '%' that takes the character behind it: no '%' before it has taken it.
def leftOpen (text : Text) : Bool := text.foldl (fun open_ c => c = '%' && !open_) false

theorem leftOpen_behind (front : Text) {c : Char} (other : c ≠ '%') (s : Text) :
    leftOpen (front ++ c :: s) = leftOpen s := by
  simp [leftOpen, other]

theorem suffix_pastPrecision (u : Text) : pastPrecision u <:+ u := by
  have width : pastWidth u <:+ u :=
    (List.dropWhile_suffix _).trans (List.dropWhile_suffix _)
  unfold pastPrecision
  split
  next w same =>
    rw [same] at width
    exact (List.dropWhile_suffix _).trans ((List.suffix_cons _ _).trans width)
  next => exact width

theorem convert_letter {c : Char} (letter : c = 's' ∨ c = 'b' ∨ c = '%') (f : Formatting) :
    (∃ text ap, ∀ s, convert f c s = .ok (f.put text ap, 1)) ∨ ∀ s, convert f c s = .error .wrongArgument := by
  rcases letter with rfl | rfl | rfl
  · cases args : f.ap with
    | nil => exact .inr fun s => by simp only [convert, args]
    | cons arg ap => cases arg <;> simp [convert, args]
  · cases args : f.ap with
    | nil => exact .inr fun s => by simp only [convert, args]
    | cons arg ap => cases arg <;> simp [convert, args]
  · exact .inl ⟨['%'], f.ap, fun s => rfl⟩

section Modifiers

variable {u q : Text}

theorem conversion_short (past : pastPrecision u = 'h' :: q) :
    conversion u =
      if q.head? = some 'h' then if among intfmts q.tail then some (q.tail, .int) else none
      else if among intfmts q then some (q, .int) else none := by
  have int : 'h' ∉ intfmts := by decide
  have double : 'h' ∉ doublefmts := by decide
  cases q with
  | nil => simp [conversion, past, strchr, int, double, among]
  | cons c q =>
    by_cases twice : c = 'h'
    · subst twice
      simp only [conversion, past, strchr, int, double, List.head?_cons, Option.all_some, List.contains_eq_mem,
        decide_false, Bool.false_eq_true, if_false, if_true, List.tail_cons]
      rfl
    · simp [conversion, past, strchr, int, double, twice]

theorem conversion_long (past : pastPrecision u = 'l' :: q) :
    conversion u =
      if q.head? = some 'l' then if among intfmts q.tail then some (q.tail, .longLong) else none
      else if among intfmts q then some (q, .long) else none := by
  have int : 'l' ∉ intfmts := by decide
  have double : 'l' ∉ doublefmts := by decide
  cases q with
  | nil => simp [conversion, past, strchr, int, double, among]
  | cons c q =>
    by_cases twice : c = 'l'
    · subst twice
      simp only [conversion, past, strchr, int, double, List.head?_cons, Option.all_some, List.contains_eq_mem,
        decide_false, Bool.false_eq_true, if_false, if_true, List.tail_cons]
      rfl
    · simp [conversion, past, strchr, int, double, twice]

end Modifiers

section Append

variable {more : Text} (percent : more.head? = some '%')

include percent

theorem dropWhile_before {p : Char → Bool} (stops : p '%' = false) (u : Text) :
    (u ++ more).dropWhile p = u.dropWhile p ++ more := by
  have stays : more.dropWhile p = more := by
    cases more with
    | nil => rfl
    | cons c more =>
      obtain rfl := Option.some.inj percent
      rw [List.dropWhile_cons_of_neg (by simp [stops])]
  rw [List.dropWhile_append, stays]
  split
  next none_ => rw [List.isEmpty_iff.mp none_, List.nil_append]
  next => rfl

theorem pastPrecision_append (u : Text) : pastPrecision (u ++ more) = pastPrecision u ++ more := by
  have width : pastWidth (u ++ more) = pastWidth u ++ more := by
    rw [pastWidth, pastFlags, dropWhile_before percent (by decide), dropWhile_before percent (by decide)]
    rfl
  unfold pastPrecision
  rw [width]
  cases pastWidth u with
  | nil =>
    cases more with
    | nil => rfl
    | cons c more =>
      obtain rfl := Option.some.inj percent
      rfl
  | cons c w =>
    by_cases dot : c = '.'
    · subst dot
      exact dropWhile_before percent (by decide) w
    · simp [dot]

theorem among_append (q : Text) :
    among intfmts (q ++ more) = false ∨ ∃ conv p, q = conv :: p ∧ conv ≠ '%' ∧ among intfmts q = true ∧
      among intfmts (q ++ more) = true := by
  cases q with
  | nil =>
    refine .inl ?_
    rw [List.nil_append, among, percent]
    decide
  | cons conv p =>
    cases known : intfmts.contains conv with
    | false => exact .inl (by simpa [among] using known)
    | true =>
      refine .inr ⟨conv, p, rfl, ?_, by simpa [among] using known, by simpa [among] using known⟩
      rintro rfl
      exact absurd known (by decide)

-- A conversion that is not complete before a '%' is not completed behind it.
theorem conversion_append (u : Text) :
    conversion (u ++ more) = none ∨ ∃ body conv p type, u = body ++ conv :: p ∧ conv ≠ '%' ∧
      conversion u = some (conv :: p, type) ∧ conversion (u ++ more) = some (conv :: (p ++ more), type) := by
  obtain ⟨front, split⟩ := suffix_pastPrecision u
  -- Behind a length modifier an integer conversion has to come.
  have sized (modifier q : Text) (type : ArgType) (past : pastPrecision u = modifier ++ q)
      (before : conversion u = if among intfmts q then some (q, type) else none)
      (behind : conversion (u ++ more) = if among intfmts (q ++ more) then some (q ++ more, type) else none) :
      conversion (u ++ more) = none ∨ ∃ body conv p type, u = body ++ conv :: p ∧ conv ≠ '%' ∧
        conversion u = some (conv :: p, type) ∧ conversion (u ++ more) = some (conv :: (p ++ more), type) := by
    rcases among_append percent q with none_ | ⟨conv, p, rfl, other, yes, yes'⟩
    · exact .inl (by rw [behind, none_]; rfl)
    · refine .inr ⟨front ++ modifier, conv, p, type, ?_, other, ?_, ?_⟩
      · rw [← split, past, List.append_assoc]
      · rw [before, yes]; rfl
      · rw [behind, yes']; rfl
  have ahead := pastPrecision_append percent u
  cases past : pastPrecision u with
  | nil =>
    refine .inl ?_
    rw [past, List.nil_append] at ahead
    cases more with
    | nil => cases percent
    | cons c more =>
      obtain rfl := Option.some.inj percent
      unfold conversion
      rw [ahead]
      rfl
  | cons c q =>
    rw [past] at split
    replace ahead : pastPrecision (u ++ more) = c :: (q ++ more) := ahead.trans (by rw [past]; rfl)
    have plain (type : ArgType) (before : conversion u = some (c :: q, type))
        (behind : conversion (u ++ more) = some (c :: (q ++ more), type)) (other : c ≠ '%') :
        conversion (u ++ more) = none ∨ ∃ body conv p type, u = body ++ conv :: p ∧ conv ≠ '%' ∧
          conversion u = some (conv :: p, type) ∧ conversion (u ++ more) = some (conv :: (p ++ more), type) :=
      .inr ⟨front, c, q, type, split.symm, other, before, behind⟩
    by_cases int : c ∈ intfmts
    · refine plain .int ?_ ?_ ?_
      · simp [conversion, past, strchr, int]
      · simp [conversion, ahead, strchr, int]
      · rintro rfl; exact absurd int (by decide)
    by_cases double : c ∈ doublefmts
    · refine plain .double ?_ ?_ ?_
      · simp [conversion, past, strchr, int, double]
      · simp [conversion, ahead, strchr, int, double]
      · rintro rfl; exact absurd double (by decide)
    -- What is left are the length modifiers.
    have longer (d : Char) (other : q.head? ≠ some d) (notPercent : d ≠ '%') : (q ++ more).head? ≠ some d := by
      cases q with
      | nil =>
        rw [List.nil_append, percent]
        exact fun same => notPercent (Option.some.inj same).symm
      | cons => exact other
    by_cases short : c = 'h'
    · subst short
      have before := conversion_short past
      have behind := conversion_short ahead
      by_cases twice : q.head? = some 'h'
      · obtain ⟨q', rfl⟩ := List.head?_eq_some_iff.mp twice
        exact sized ['h', 'h'] q' .int past before behind
      · rw [if_neg twice] at before
        rw [if_neg (longer 'h' twice (by decide))] at behind
        exact sized ['h'] q .int past before behind
    by_cases long : c = 'l'
    · subst long
      have before := conversion_long past
      have behind := conversion_long ahead
      by_cases twice : q.head? = some 'l'
      · obtain ⟨q', rfl⟩ := List.head?_eq_some_iff.mp twice
        exact sized ['l', 'l'] q' .longLong past before behind
      · rw [if_neg twice] at before
        rw [if_neg (longer 'l' twice (by decide))] at behind
        exact sized ['l'] q .long past before behind
    refine .inl ?_
    simp [conversion, ahead, strchr, int, double, short, long]

theorem convert_append (f : Formatting) (c : Char) (s : Text) :
    convert f c (s ++ more) = .error .format_err ∨
      convert f c (s ++ more) = convert f c s ∧
        match convert f c s with
        | .ok (_, skip) => ∃ front p, c :: s = front ++ p ∧ front.length = skip ∧
            leftOpen p = leftOpen ('%' :: c :: s)
        | .error fault => fault = .wrongArgument := by
  by_cases letter : c = 's' ∨ c = 'b' ∨ c = '%'
  · have behind : leftOpen s = leftOpen ('%' :: c :: s) := by rcases letter with rfl | rfl | rfl <;> rfl
    refine .inr ?_
    rcases convert_letter letter f with ⟨text, ap, taken⟩ | wrong
    · rw [taken, taken]
      exact ⟨rfl, [c], s, rfl, rfl, behind⟩
    · rw [wrong, wrong]
      exact ⟨rfl, rfl⟩
  · rw [convert_other letter, convert_other letter]
    rcases conversion_append percent (c :: s) with none_ | ⟨body, conv, p, type, split, other, found, found'⟩
    · have none' : conversion (c :: (s ++ more)) = none := none_
      rw [none']
      exact .inl rfl
    · have found'' : conversion (c :: (s ++ more)) = some (conv :: (p ++ more), type) := found'
      refine .inr ?_
      rw [found, found'']
      simp only
      cases vaArg type f.ap with
      | none => exact ⟨rfl, rfl⟩
      | some taken =>
        obtain ⟨arg, ap⟩ := taken
        have text : (c :: s).length - (conv :: p).length + 1 = body.length + 1 := by
          rw [split, List.length_append]
          omega
        have text' : (c :: (s ++ more)).length - (conv :: (p ++ more)).length + 1 = body.length + 1 := by
          have split' : c :: (s ++ more) = body ++ conv :: (p ++ more) := by
            rw [← List.cons_append, split, List.append_assoc]
            rfl
          rw [split', List.length_append]
          omega
        have room : body.length + 1 ≤ (c :: s).length := by
          rw [split, List.length_append, List.length_cons]
          omega
        have front : (c :: (s ++ more)).take (body.length + 1) = (c :: s).take (body.length + 1) := by
          rw [← List.cons_append, List.take_append_of_le_length room]
        simp only [text, text', front, List.isEmpty_cons, Bool.false_eq_true, if_false, true_and]
        by_cases small : body.length + 1 + 1 < formatSize - 2
        · simp only [small, if_true]
          refine ⟨body ++ [conv], p, by rw [split, List.append_assoc]; rfl, by simp, ?_⟩
          rw [split, ← List.cons_append, leftOpen_behind _ other]
        · simp only [small, if_false]
          have letter' : c ≠ '%' := fun same => letter (.inr (.inr same))
          exact ⟨[c], s, rfl, rfl, (leftOpen_behind ['%'] letter' s).symm⟩

theorem loop_append (rest : Text) (same : more = '%' :: '.' :: '*' :: rest) (n : Nat) :
    ∀ {before : Text} {f : Formatting}, before.length < n → leftOpen before = false →
      formatLoop before 0 f ≠ .error .wrongArgument →
        formatLoop (before ++ more) 0 f = .error .format_err := by
  induction n with
  | zero => exact fun short => absurd short (Nat.not_lt_zero _)
  | succ n ih =>
    intro before f short closed fitting
    cases before with
    | nil =>
      subst same
      rfl
    | cons c s =>
      have shorter : s.length < n := Nat.lt_of_succ_lt_succ short
      by_cases directive : c = '%'
      · subst directive
        cases s with
        | nil => cases closed
        | cons d s =>
          have whole : formatLoop ('%' :: d :: s) 0 f =
              (convert f d s).bind fun converted => formatLoop (d :: s) converted.2 converted.1 := rfl
          have whole' : formatLoop ('%' :: d :: s ++ more) 0 f =
              (convert f d (s ++ more)).bind fun converted =>
                formatLoop (d :: (s ++ more)) converted.2 converted.1 := rfl
          rcases convert_append percent f d s with refused | ⟨equal, goes⟩
          · rw [whole', refused]
            rfl
          · rw [whole] at fitting
            rw [whole', equal]
            cases converted : convert f d s with
            | error fault =>
              rw [converted] at goes fitting
              exact absurd (congrArg Except.error goes) fitting
            | ok converted' =>
              obtain ⟨f', skip⟩ := converted'
              rw [converted] at goes fitting
              obtain ⟨front, p, split, length, later⟩ := goes
              subst length
              change formatLoop (d :: s) front.length f' ≠ _ at fitting
              rw [split, formatLoop_skip] at fitting
              have shorter' : p.length < n := by
                have length := congrArg List.length split
                simp only [List.length_cons, List.length_append] at length shorter
                omega
              change formatLoop (d :: s ++ more) front.length f' = _
              rw [split, List.append_assoc, formatLoop_skip]
              exact ih shorter' (later.trans closed) fitting
      · have closed' : leftOpen s = false := (leftOpen_behind [] directive s).symm.trans closed
        by_cases blank : c = ' '
        · rw [formatLoop, if_neg fun percent => directive percent.1, if_pos blank] at fitting
          rw [List.cons_append, formatLoop, if_neg fun percent => directive percent.1, if_pos blank]
          exact ih shorter closed' fitting
        · rw [formatLoop, if_neg fun percent => directive percent.1, if_neg blank] at fitting
          rw [List.cons_append, formatLoop, if_neg fun percent => directive percent.1, if_neg blank]
          exact ih shorter closed' fitting

end Append

abbrev Front := List (Option Piece)

namespace Front

def spell (front : Front) : Text := front.flatMap fun piece => piece.elim [' '] Piece.spell

def args (front : Front) : List Arg := front.flatMap fun piece => piece.elim [] Piece.args

end Front

theorem loop_front (front : Front) (more : Text) : ∀ {f : Formatting} {ap : List Arg},
    f.ap = Front.args front ++ ap →
      ∃ f', formatLoop (Front.spell front ++ more) 0 f = formatLoop more 0 f' ∧ f'.ap = ap := by
  induction front with
  | nil => exact fun args => ⟨_, rfl, args⟩
  | cons piece front ih =>
    intro f ap args
    rw [Front.args, List.flatMap_cons, List.append_assoc] at args
    rw [Front.spell, List.flatMap_cons, List.append_assoc]
    cases piece with
    | none =>
      have closed : f.close.ap = Front.args front ++ ap := by
        rw [← show f.ap = Front.args front ++ ap from args]
        unfold Formatting.close
        split <;> rfl
      exact ih closed
    | some piece =>
      have step := loop_piece piece args (Front.spell front ++ more)
      obtain ⟨f', later, args'⟩ := @ih (f.put piece.fill (Front.args front ++ ap)) ap rfl
      exact ⟨f', step.trans later, args'⟩

end Hiredis
