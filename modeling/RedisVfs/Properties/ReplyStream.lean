import RedisVfs.Wire.Building

set_option autoImplicit false

namespace Hiredis

open CString Resp

theorem pieces_agree (pieces : List Text) :
    seen (receive redisReaderCreate pieces) = seen (receive redisReaderCreate [pieces.flatten]) := by
  rw [seen_receive, seen_receive]
  simp

theorem run_values {values : List Value} (fits : ∀ value ∈ values, Fits 8 value) :
    ∀ {text : Text}, text <+: Value.wires values →
      ∃ k, (eater.run .idle text).1 = (values.take k).map reply ∧
        (∃ rstack root, (eater.run .idle text).2.1 = .waiting rstack root) ∧
          Value.wires (values.take k) <+: text ∧
            (k < values.length → ¬ Value.wires (values.take (k + 1)) <+: text) := by
  induction values with
  | nil =>
    intro text part
    obtain rfl := List.prefix_nil.mp part
    have stopped : eater.run .idle [] = ([], .idle, []) := Eater.run_none (bite_nil .idle)
    rw [stopped]
    exact ⟨0, rfl, ⟨_, _, rfl⟩, List.nil_prefix, nofun⟩
  | cons value values ih =>
    intro text part
    have first := fits value List.mem_cons_self
    rw [Value.wires] at part
    by_cases whole : value.wire <+: text
    · obtain ⟨later, rfl⟩ := whole
      obtain ⟨k, told, idle, within, next⟩ := ih (fun other member => fits other (List.mem_cons_of_mem _ member))
        ((List.prefix_append_right_inj _).mp part)
      have leads := leads_whole first later
      refine ⟨k + 1, ?_, ?_, ?_, fun more => ?_⟩
      · rw [leads, told]; rfl
      · rw [leads]; exact idle
      · rw [List.take_succ_cons, Value.wires]
        exact (List.prefix_append_right_inj _).mpr within
      · rw [List.take_succ_cons, Value.wires, List.prefix_append_right_inj]
        exact next (Nat.lt_of_succ_lt_succ more)
    · obtain ⟨back, split⟩ := (List.prefix_or_prefix_of_prefix part (List.prefix_append _ _)).resolve_right whole
      have open_ : back ≠ [] := by
        rintro rfl
        rw [List.append_nil] at split
        exact whole (split ▸ List.prefix_rfl)
      obtain ⟨silent, waiting⟩ := run_part first split.symm open_
      refine ⟨0, silent, waiting, List.nil_prefix, fun _ => ?_⟩
      simpa [Value.wires] using whole

theorem values_read {values : List Value} (fits : ∀ value ∈ values, Fits 8 value) {pieces : List Text}
    (part : pieces.flatten <+: Value.wires values) :
    ∃ k r, receive redisReaderCreate pieces = some ((values.take k).map reply, r) ∧ r.err = none ∧
      Value.wires (values.take k) <+: pieces.flatten ∧
        (k < values.length → ¬ Value.wires (values.take (k + 1)) <+: pieces.flatten) := by
  obtain ⟨k, told, ⟨rstack, root, waiting⟩, within, next⟩ := run_values fits part
  have spec := receive_created pieces
  cases got : receive redisReaderCreate pieces with
  | none =>
    rw [got] at spec
    rw [spec] at waiting
    cases waiting
  | some taken =>
    obtain ⟨told', r⟩ := taken
    rw [got] at spec
    obtain ⟨run, -⟩ := spec
    rw [run] at told waiting
    obtain rfl : told' = (values.take k).map reply := told
    have fine : r.err = none := by
      have mood : r.mood = .waiting rstack root := waiting
      rw [← mood_err, mood]
      rfl
    exact ⟨k, r, rfl, fine, within, next⟩

theorem values_read_cut :
    ∃ k r, receive redisReaderCreate ["*2\r\n$1\r".toList, "\n3\r\n:4\r".toList] =
        some (([.array [.bulk ['3'], .integer 4], .nil].take k).map reply, r) ∧ r.err = none ∧
      Value.wires ([.array [.bulk ['3'], .integer 4], .nil].take k) <+:
          ["*2\r\n$1\r".toList, "\n3\r\n:4\r".toList].flatten ∧
        (k < 2 → ¬ Value.wires ([.array [.bulk ['3'], .integer 4], .nil].take (k + 1)) <+:
          ["*2\r\n$1\r".toList, "\n3\r\n:4\r".toList].flatten) := by
  refine @values_read [.array [.bulk ['3'], .integer 4], .nil] ?_ _ ⟨"\n$-1\r\n".toList, by rfl⟩
  have inner : ∀ item ∈ [Value.bulk ['3'], .integer 4], Fits 7 item := by
    simp only [List.forall_mem_cons]
    exact ⟨.bulk (by decide), .integer (by decide) (by decide), nofun⟩
  simp only [List.forall_mem_cons]
  exact ⟨.array (by decide) inner, .nil, nofun⟩

theorem reader_safe {pieces : List Text} (fit : CountsFit pieces.flatten) :
    ∃ replies r, receive redisReaderCreate pieces = some (replies, r) ∧
      ∀ told ∈ replies, ∃ value, Nested 8 value ∧ told = reply value := by
  obtain ⟨sound, told⟩ := sound_run fit
  have spec := receive_created pieces
  cases got : receive redisReaderCreate pieces with
  | none =>
    rw [got] at spec
    rw [spec] at sound
    exact sound.elim
  | some taken =>
    obtain ⟨replies, r⟩ := taken
    rw [got] at spec
    obtain ⟨run, -⟩ := spec
    rw [run] at told
    exact ⟨replies, r, rfl, told⟩

-- A bulk text that looks like the head of an array is none.
theorem reader_safe_bulk :
    ∃ replies r, receive redisReaderCreate
        ["*2\r\n$4\r\n*-5\r\r\n*-".toList, "1\r\n*0\r\n?".toList] = some (replies, r) ∧
      ∀ told ∈ replies, ∃ value, Nested 8 value ∧ told = reply value :=
  reader_safe (by decide)

end Hiredis
