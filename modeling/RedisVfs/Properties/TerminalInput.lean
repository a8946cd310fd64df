import RedisVfs.Source.Terminal

set_option autoImplicit false

namespace RedisVfs

open CString

namespace Terminal

-- The pieces that the first delimiter, the first one behind it and so on close, and what follows them.
structure Cut (delim text : Text) (pieces : List Text) (last : Text) : Prop where
  whole : pieces.flatMap (· ++ delim) ++ last = text
  earliest : ∀ piece ∈ pieces, ∀ before after, before ++ delim ++ after = piece ++ delim → after = []
  none : ¬ delim <:+: last

section Split

variable {str delim : Text} {prev pos : Nat}

theorem find_none (within : prev ≤ str.length) (none : find str delim prev = none) :
    ¬ delim <:+: str.drop prev := by
  rintro ⟨before, after, shape⟩
  have size := congrArg List.length shape
  simp only [List.length_append, List.length_drop] at size
  have missing := List.find?_range'_eq_none.mp none (prev + before.length) (Nat.le_add_right _ _) (by omega)
  have here : str.drop (prev + before.length) = delim ++ after := by
    rw [← List.drop_drop, ← shape, List.append_assoc, List.drop_left]
  have there : delim.isPrefixOf (str.drop (prev + before.length)) = true := by
    rw [here, List.isPrefixOf_iff_prefix]
    exact List.prefix_append delim after
  rw [there] at missing
  cases missing

theorem find_some (found : find str delim prev = some pos) :
    ∃ piece, (str.drop prev).take (pos - prev) = piece ∧ pos = prev + piece.length ∧
      pos + delim.length ≤ str.length ∧ str.drop prev = piece ++ delim ++ str.drop (pos + delim.length) ∧
        ∀ before after, before ++ delim ++ after = piece ++ delim → after = [] := by
  obtain ⟨here, within, first⟩ := List.find?_range'_eq_some.mp found
  have bounds := List.mem_range'_1.mp within
  obtain ⟨rest, shape⟩ := List.isPrefixOf_iff_prefix.mp here
  have size := congrArg List.length shape
  simp only [List.length_append, List.length_drop] at size
  have behind : str.drop (pos + delim.length) = rest := by
    rw [← List.drop_drop, ← shape, List.drop_left]
  have length : ((str.drop prev).take (pos - prev)).length = pos - prev := by
    rw [List.length_take, List.length_drop]
    omega
  have whole : str.drop prev = (str.drop prev).take (pos - prev) ++ (delim ++ rest) := by
    conv_lhs => rw [← List.take_append_drop (pos - prev) (str.drop prev)]
    rw [List.drop_drop, Nat.add_sub_cancel' bounds.1, shape]
  refine ⟨_, rfl, by omega, by omega, by rw [behind, List.append_assoc, ← whole], fun before after same => ?_⟩
  by_contra longer
  -- An occurrence that ends before the piece does would have been found first.
  have sizes := congrArg List.length same
  simp only [List.length_append] at sizes
  have positive := List.length_pos_iff.mpr longer
  have earlier := first (prev + before.length) (Nat.le_add_right _ _) (by omega)
  have there : str.drop (prev + before.length) = delim ++ (after ++ rest) := by
    rw [← List.drop_drop, whole, ← List.append_assoc, ← same, List.append_assoc, List.append_assoc, List.drop_left]
  have occurs : delim.isPrefixOf (str.drop (prev + before.length)) = true := by
    rw [there, List.isPrefixOf_iff_prefix]
    exact List.prefix_append _ _
  rw [occurs] at earlier
  cases earlier

theorem pushed (tokens : List Text) (token : Text) :
    (if token = [] then tokens else tokens ++ [token]) = tokens ++ [token].filter (· ≠ []) := by
  by_cases empty : token = [] <;> simp [empty]

-- One turn of the loop finds one piece, and each takes a character at least.
theorem splitLoop_cut (nonempty : delim ≠ []) {fuel : Nat} (within : prev ≤ str.length)
    (enough : str.length < prev + fuel) (tokens : List Text) :
    ∃ pieces last, Cut delim (str.drop prev) pieces last ∧
      splitLoop str delim fuel prev tokens = some (tokens ++ (pieces ++ [last]).filter (· ≠ [])) := by
  have positive := List.length_pos_iff.mpr nonempty
  induction fuel generalizing prev tokens with
  | zero => omega
  | succ fuel ih =>
    rw [splitLoop]
    cases found : find str delim prev with
    | none =>
      have ends : ¬ (str.length < str.length ∧ str.length + delim.length < str.length) := by omega
      have all : (str.drop prev).take (str.length - prev) = str.drop prev := by
        rw [← List.length_drop, List.take_length]
      refine ⟨[], str.drop prev, ⟨rfl, by simp, find_none within found⟩, ?_⟩
      simp only [Option.getD_none, if_neg ends, all, pushed]
      rfl
    | some pos =>
      obtain ⟨piece, taken, here, fits, whole, earliest⟩ := find_some found
      simp only [Option.getD_some, taken, pushed]
      by_cases more : pos + delim.length < str.length
      · have going : pos < str.length ∧ pos + delim.length < str.length := by omega
        obtain ⟨pieces, last, cut, rest⟩ := @ih (pos + delim.length) (by omega) (by omega)
          (tokens ++ [piece].filter (· ≠ []))
        refine ⟨piece :: pieces, last, ⟨?_, ?_, cut.none⟩, ?_⟩
        · rw [List.flatMap_cons, List.append_assoc, cut.whole, ← whole]
        · rw [List.forall_mem_cons]
          exact ⟨earliest, cut.earliest⟩
        · rw [if_pos going, rest, List.append_assoc, ← List.filter_append]
          rfl
      · have stops : ¬ (pos < str.length ∧ pos + delim.length < str.length) := by omega
        have spent : str.drop (pos + delim.length) = [] := List.drop_eq_nil_of_le (by omega)
        refine ⟨[piece], [], ⟨?_, ?_, by simpa using nonempty⟩, ?_⟩
        · rw [whole, spent]
          simp
        · simpa using earliest
        · rw [if_neg stops, List.filter_append]
          simp

theorem splitLoop_empty (positive : 0 < str.length) (fuel : Nat) (tokens : List Text) :
    splitLoop str [] fuel 0 tokens = none := by
  have here : find str [] 0 = some 0 := by
    rw [find, List.find?_range'_eq_some]
    simp
  induction fuel generalizing tokens with
  | zero => rfl
  | succ fuel ih =>
    have going : 0 < str.length ∧ 0 + ([] : Text).length < str.length := ⟨positive, positive⟩
    rw [splitLoop, here]
    simp only [Option.getD_some, if_pos going]
    exact ih _

theorem split_pieces (str delim : Text) :
    (delim ≠ [] → ∃ pieces last, Cut delim str pieces last ∧
      split str delim = some ((pieces ++ [last]).filter (· ≠ []))) ∧
    (str ≠ [] → ∀ fuel, splitLoop str [] fuel 0 [] = none) := by
  constructor
  · intro nonempty
    have cut := @splitLoop_cut str delim 0 nonempty (str.length + 1) (Nat.zero_le _) (by omega) []
    rw [List.drop_zero] at cut
    exact cut
  · intro given fuel
    exact splitLoop_empty (List.length_pos_iff.mpr given) fuel []

theorem split_pieces_arrow :
    ∃ pieces last, Cut "->".toList "a->->b".toList pieces last ∧
      split "a->->b".toList "->".toList = some ((pieces ++ [last]).filter (· ≠ [])) :=
  (split_pieces "a->->b".toList "->".toList).1 (by decide)

theorem split_words (str : Text) (sep : Char) :
    split str [sep] = some ((Segments.words sep str ++ [Segments.rest sep str]).filter (· ≠ [])) := by
  have cut := @splitLoop_cut str [sep] 0 (List.cons_ne_nil _ _) (str.length + 1) (Nat.zero_le _) (by omega) []
  obtain ⟨pieces, last, cut, result⟩ := cut
  have free : ∀ piece ∈ pieces, Segments.Free sep piece := by
    intro piece member inside
    obtain ⟨before, after, rfl⟩ := List.append_of_mem inside
    have ends := cut.earliest _ member before (after ++ [sep]) (by simp)
    simp at ends
  have lastFree : Segments.Free sep last := by
    intro inside
    obtain ⟨before, after, rfl⟩ := List.append_of_mem inside
    exact cut.none ⟨before, after, by simp⟩
  have whole : Segments.unite sep pieces ++ last = str := cut.whole
  rw [split, result, ← whole, Segments.words_unite free, Segments.rest_unite, Segments.words_of_free lastFree,
    Segments.rest_of_free lastFree, List.append_nil]
  rfl

end Split

section Lines

-- The line that the turn with this number reads: what no line end closes is read again and again.
def line (input : Text) (turn : Nat) : Text :=
  (Segments.words '\n' input).getD turn (Segments.rest '\n' input)

def handleLines (fuel : Nat) : FsContext → List Text → Prog (Text × FsContext)
  | c, [] => return ([], c)
  | c, str :: lines => do
      let (output, c) ← handleLine fuel c str
      let (more, c) ← handleLines fuel c lines
      return ("\nCommand> ".toList ++ output ++ more, c)

def seen (answer : Text × Console) : Text × FsContext := (answer.1, answer.2.c)

theorem inLine {str : Text} (free : Segments.Free '\n' str) : ∀ c ∈ str, decide (c ≠ '\n') = true :=
  fun _ member => decide_eq_true (ne_of_mem_of_not_mem member free)

theorem getline_closed {str : Text} (free : Segments.Free '\n' str) (rest before : Text) :
    getline ⟨str ++ '\n' :: rest, false⟩ before = (str, ⟨rest, false⟩) := by
  have ends : '\n' ∈ str ++ '\n' :: rest := by simp
  rw [getline]
  simp only [Bool.false_eq_true, if_false, if_pos ends]
  rw [List.takeWhile_append_of_pos (inLine free), List.dropWhile_append_of_pos (inLine free)]
  simp

theorem getline_last {str : Text} (free : Segments.Free '\n' str) (before : Text) :
    getline ⟨str, false⟩ before = (str, ⟨[], true⟩) := by
  have absent : '\n' ∉ str := free
  simp [getline, absent]

theorem erased {str : Text} (free : Segments.Free '\n' str) : str.filter (· ≠ '\n') = str :=
  List.filter_eq_self.mpr (inLine free)

theorem mainLoop_succ {fuel turns : Nat} {cin cin' : Stream} {before str : Text}
    (read : getline cin before = (str, cin')) (free : Segments.Free '\n' str) {lines : List Text}
    (later : ∀ c, seen <$> mainLoop fuel turns ⟨cin', str, c⟩ = handleLines fuel c lines) (c : FsContext) :
    seen <$> mainLoop fuel (turns + 1) ⟨cin, before, c⟩ = handleLines fuel c (str :: lines) := by
  rw [mainLoop, turn, handleLines]
  simp only [read, erased free, map_bind, bind_assoc, pure_bind, ← later, bind_map_left]
  rfl

theorem mainLoop_ended (fuel turns : Nat) {str : Text} (free : Segments.Free '\n' str) (c : FsContext) :
    seen <$> mainLoop fuel turns ⟨⟨[], true⟩, str, c⟩ = handleLines fuel c (List.replicate turns str) := by
  induction turns generalizing c with
  | zero => rfl
  | succ turns ih =>
    have read : getline ⟨[], true⟩ str = (str, ⟨[], true⟩) := rfl
    exact mainLoop_succ read free ih c

theorem line_closed {str : Text} (free : Segments.Free '\n' str) (rest : Text) :
    line (str ++ '\n' :: rest) 0 = str ∧ ∀ turn, line (str ++ '\n' :: rest) (turn + 1) = line rest turn := by
  simp [line, Segments.words_closed free, Segments.rest_behind]

theorem line_last {str : Text} (free : Segments.Free '\n' str) (turn : Nat) : line str turn = str := by
  simp [line, Segments.words_of_free free, Segments.rest_of_free free]

theorem mainLoop_lines (fuel turns : Nat) (input before : Text) (c : FsContext) :
    seen <$> mainLoop fuel turns ⟨⟨input, false⟩, before, c⟩ =
      handleLines fuel c ((List.range turns).map (line input)) := by
  induction turns generalizing input before c with
  | zero => rfl
  | succ turns ih =>
    rw [List.range_succ_eq_map, List.map_cons, List.map_map]
    cases closed : Segments.words '\n' input with
    | nil =>
      have whole := Segments.unite_words_rest '\n' input
      rw [closed, Segments.unite_nil, List.nil_append] at whole
      have free : Segments.Free '\n' input := whole ▸ Segments.rest_free '\n' input
      have rest : (List.range turns).map (line input ∘ Nat.succ) = List.replicate turns input := by
        refine (List.map_congr_left fun turn _ => line_last free _).trans ?_
        simp
      rw [line_last free, rest]
      exact mainLoop_succ (getline_last free before) free (mainLoop_ended fuel turns free) c
    | cons str others =>
      have whole := Segments.unite_words_rest '\n' input
      rw [closed, Segments.unite_cons, List.append_assoc, List.cons_append] at whole
      have free : Segments.Free '\n' str :=
        Segments.words_free '\n' input str (closed ▸ List.mem_cons_self)
      generalize Segments.unite '\n' others ++ Segments.rest '\n' input = after at whole
      subst whole
      obtain ⟨first, later⟩ := line_closed free after
      rw [first]
      refine (mainLoop_succ (getline_closed free after before) free (ih after str) c).trans ?_
      exact congrArg (fun lines => handleLines fuel c (str :: lines))
        (List.map_congr_left fun turn _ => (later turn).symm)

theorem handleLines_stop {fuel : Nat} {lines : List Text} (empty : [] ∈ lines) (c : FsContext) (store : Store) :
    ∃ fault, ((handleLines fuel c lines).run execute store).1 = .error fault := by
  induction lines generalizing c store with
  | nil => cases empty
  | cons str lines ih =>
    rw [handleLines]
    cases ran : (handleLine fuel c str).run execute store with
    | mk result after =>
      cases result with
      | error fault =>
        rw [Program.run_bind_error execute ran]
        exact ⟨fault, rfl⟩
      | ok answer =>
        rw [Program.run_bind_ok execute ran]
        rcases List.mem_cons.mp empty with rfl | later
        · cases ran
        · obtain ⟨fault, stopped⟩ := ih later answer.2 after
          refine ⟨fault, ?_⟩
          cases ran' : (handleLines fuel answer.2 lines).run execute after with
          | mk result after' =>
            rw [ran'] at stopped
            obtain rfl : result = .error fault := stopped
            exact congrArg Prod.fst (Program.run_bind_error execute ran' _)

theorem main_lines (fuel turns : Nat) (input : Text) :
    seen <$> main fuel turns input =
        library getInitialContext >>= (fun c => handleLines fuel c ((List.range turns).map (line input))) ∧
      (Segments.rest '\n' input = [] → (Segments.words '\n' input).length < turns → ∀ store,
        ∃ fault, ((main fuel turns input).run execute store).1 = .error fault) := by
  have same : seen <$> main fuel turns input =
      library getInitialContext >>= fun c => handleLines fuel c ((List.range turns).map (line input)) := by
    rw [main, map_bind]
    exact congrArg _ (funext fun c => mainLoop_lines fuel turns input [] c)
  refine ⟨same, fun ends more store => ?_⟩
  have empty : [] ∈ (List.range turns).map (line input) := by
    refine List.mem_map.mpr ⟨_, List.mem_range.mpr more, ?_⟩
    rw [line, List.getD_eq_getElem?_getD, List.getElem?_eq_none le_rfl, Option.getD_none, ends]
  have run := congrArg (fun program => (program.run execute store).1) same
  simp only [Program.run_map] at run
  cases result : ((main fuel turns input).run execute store).1 with
  | error fault => exact ⟨fault, rfl⟩
  | ok answer =>
    rw [result] at run
    cases began : (library getInitialContext).run execute store with
    | mk first after =>
      cases first with
      | error fault =>
        rw [Program.run_bind_error execute began] at run
        cases run
      | ok c =>
        obtain ⟨fault, stopped⟩ := @handleLines_stop fuel _ empty c after
        rw [Program.run_bind_ok execute began, stopped] at run
        cases run

theorem main_lines_pwd :
    ∃ fault, ((main 0 2 "pwd\n".toList).run execute .empty).1 = .error fault :=
  (main_lines 0 2 "pwd\n".toList).2 (by decide) (by decide) .empty

end Lines

end Terminal

end RedisVfs
