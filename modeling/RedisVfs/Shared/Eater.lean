import Mathlib.Data.List.Basic

set_option autoImplicit false

/-- A machine that eats a text from its front. A bite takes some characters, and does not depend on
what comes behind them. -/
structure Eater (α σ ο : Type) where
  bite : σ → List α → Option (Nat × σ × List ο)
  takes : ∀ {state : σ} {text : List α} {taken : Nat} {after : σ} {said : List ο},
    bite state text = some (taken, after, said) → 0 < taken ∧ taken ≤ text.length
  steady : ∀ {state : σ} {text : List α} {bitten : Nat × σ × List ο},
    bite state text = some bitten → ∀ more, bite state (text ++ more) = some bitten

namespace Eater

variable {α σ ο : Type} (eater : Eater α σ ο)

def run (state : σ) (text : List α) : List ο × σ × List α :=
  match bitten : eater.bite state text with
  | none => ([], state, text)
  | some (taken, after, said) =>
    have := eater.takes bitten
    let later := run after (text.drop taken)
    (said ++ later.1, later.2)
termination_by text.length
decreasing_by simp only [List.length_drop]; omega

def points : Nat → σ → List α → List (σ × List α)
  | 0, _, _ => []
  | n + 1, state, text =>
      match eater.bite state text with
      | none => []
      | some (taken, after, _) => (state, text) :: points n after (text.drop taken)

variable {eater}

theorem run_none {state : σ} {text : List α} (hungry : eater.bite state text = none) :
    eater.run state text = ([], state, text) := by
  rw [run]
  split
  next => rfl
  next bitten => simp [hungry] at bitten

theorem run_some {state : σ} {text : List α} {taken : Nat} {after : σ} {said : List ο}
    (bitten : eater.bite state text = some (taken, after, said)) :
    eater.run state text =
      (said ++ (eater.run after (text.drop taken)).1, (eater.run after (text.drop taken)).2) := by
  rw [run]
  split
  next hungry => simp [bitten] at hungry
  next same =>
    obtain ⟨rfl, rfl, rfl⟩ := by simpa using bitten.symm.trans same
    rfl

theorem run_hungry (state : σ) (text : List α) :
    eater.bite (eater.run state text).2.1 (eater.run state text).2.2 = none := by
  fun_induction run eater state text with
  | case1 state text hungry => exact hungry
  | case2 state text taken after said bitten room later ih => exact ih

theorem run_said_le (few : ∀ {state : σ} {text : List α} {taken : Nat} {after : σ} {said : List ο},
      eater.bite state text = some (taken, after, said) → said.length ≤ taken) (state : σ) (text : List α) :
    (eater.run state text).1.length ≤ text.length := by
  fun_induction run eater state text with
  | case1 state text hungry => exact Nat.zero_le _
  | case2 state text taken after said bitten room later ih =>
    have short := few bitten
    rw [List.length_drop] at ih
    change (said ++ (eater.run after (text.drop taken)).1).length ≤ text.length
    rw [List.length_append]
    omega

theorem run_append (state : σ) (text more : List α) :
    eater.run state (text ++ more) =
      ((eater.run state text).1 ++
          (eater.run (eater.run state text).2.1 ((eater.run state text).2.2 ++ more)).1,
        (eater.run (eater.run state text).2.1 ((eater.run state text).2.2 ++ more)).2) := by
  fun_induction run eater state text with
  | case1 state text hungry => rfl
  | case2 state text taken after said bitten room later ih =>
    have rest : (text ++ more).drop taken = text.drop taken ++ more :=
      List.drop_append_of_le_length room.2
    rw [run_some (eater.steady bitten more), rest, ih, List.append_assoc]

def Leads (eater : Eater α σ ο) (state : σ) (text : List α) (said : List ο) (after : σ) (rest : List α) :
    Prop :=
  eater.run state text = (said ++ (eater.run after rest).1, (eater.run after rest).2)

theorem Leads.refl (state : σ) (text : List α) : eater.Leads state text [] state text := rfl

theorem Leads.bite {state : σ} {text : List α} {taken : Nat} {after : σ} {said : List ο}
    (bitten : eater.bite state text = some (taken, after, said)) :
    eater.Leads state text said after (text.drop taken) := run_some bitten

theorem Leads.trans {state after final : σ} {text rest end_ : List α} {said later : List ο}
    (first : eater.Leads state text said after rest) (second : eater.Leads after rest later final end_) :
    eater.Leads state text (said ++ later) final end_ := by
  unfold Leads at *
  rw [first, second, List.append_assoc]

theorem run_induction {Keeps : σ → Prop} {Says : ο → Prop} {Here : σ → List α → Prop}
    (step : ∀ {state : σ} {text : List α} {taken : Nat} {after : σ} {said : List ο},
      Keeps state → Here state text → eater.bite state text = some (taken, after, said) →
        Keeps after ∧ ∀ word ∈ said, Says word) (state : σ) (text : List α) :
    ∀ n, text.length ≤ n → Keeps state →
      (∀ point ∈ eater.points n state text, Here point.1 point.2) →
        Keeps (eater.run state text).2.1 ∧ ∀ word ∈ (eater.run state text).1, Says word := by
  fun_induction run eater state text with
  | case1 state text hungry => exact fun _ _ keeps _ => ⟨keeps, List.forall_mem_nil _⟩
  | case2 state text taken after said bitten room later ih =>
    intro n enough keeps here
    obtain ⟨n, rfl⟩ : ∃ m, n = m + 1 := Nat.exists_eq_succ_of_ne_zero (by omega)
    simp only [points, bitten, List.forall_mem_cons] at here
    obtain ⟨keeps', told⟩ := step keeps here.1 bitten
    obtain ⟨final, more⟩ := ih n (by rw [List.length_drop]; omega) keeps' here.2
    exact ⟨final, List.forall_mem_append.mpr ⟨told, more⟩⟩

end Eater
