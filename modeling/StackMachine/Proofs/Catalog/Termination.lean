import StackMachine.Proofs.Catalog.Gcd
import StackMachine.Proofs.Execution.Invariant
import StackMachine.Proofs.Execution.Termination

/-!
# The catalog terminates

Every execution of a program of the catalog ends, from any function, on any arguments and under any
limits (`Machine.exists_ends_of_mem_catalog`).  There are two reasons.  All branches lead forward,
except in `gcd`, and there the loop ends by arithmetic.  None gets stuck, since the programs have
few slots (`Machine.not_ends_stuck_of_mem_catalog`).
-/

namespace StackMachine

/-! ### Forward branches -/

/-- An invocation that nobody waits for ends, if every branch leads forward. -/
theorem exists_endsFrom_of_forward {program : Program} {s : State} (h : program.Forward)
    (limits : Limits) (halone : s.suspended = .empty) :
    ∃ outcome, EndsFrom program limits s outcome := by
  obtain ⟨fuel, result, hresult⟩ := exists_evaluate h limits 1 s.frame s.stack
  exact ⟨_, endsFrom_of_evaluate halone hresult⟩

/-- Every branch of the program leads forward, unless it is refused. -/
def Catalog.Entry.Forward (e : Catalog.Entry) : Prop :=
  ∀ program ∈ (validate e.definitions).toOption, program.Forward

instance (e : Catalog.Entry) : Decidable e.Forward :=
  inferInstanceAs (Decidable (∀ program ∈ (validate e.definitions).toOption, program.Forward))

theorem Catalog.eq_gcd_or_forward : ∀ e ∈ Catalog.all, e = Catalog.gcd ∨ e.Forward := by
  decide

/-! ### The loop -/

theorem Gcd.exists_endsFrom_of_start {limits : Limits} {entry : Nat} {arguments : List Value}
    {s : State}
    (h : (start Machine.gcd.program limits entry arguments).transition = .next s) :
    ∃ outcome, EndsFrom Machine.gcd.program limits s outcome := by
  obtain ⟨routine, hr, -, -, -, htypes, -, rfl⟩ := start_eq_next_iff.mp h
  cases entry with
  | succ entry => cases hr
  | zero =>
    cases hr
    obtain ⟨a, b, rest, hstack⟩ := exists_integers htypes
    obtain ⟨outcome, hends⟩ := exists_endsFrom limits a b rest
    rw [hstack]
    exact ⟨outcome, (enters_loop a b rest).endsFrom hends⟩

/-! ### The whole catalog -/

theorem Catalog.slots_lt : ∀ e ∈ Catalog.all, ∀ program ∈ (validate e.definitions).toOption,
    ∀ r ∈ program, r.slots < Frame.slotLimit := by
  decide

namespace Machine

variable {m : Machine} {entry : Nat} {arguments : List Value}

/-- An execution ends if it does from the state in which it gets under way. -/
theorem exists_ends_of_start
    (h : ∀ s, (start m.program m.limits entry arguments).transition = .next s →
      ∃ outcome, EndsFrom m.program m.limits s outcome) :
    ∃ outcome, m.Ends entry arguments outcome := by
  cases hstart : (start m.program m.limits entry arguments).transition with
  | halt outcome => exact ⟨outcome, ends_of_start_halt hstart⟩
  | next s =>
    obtain ⟨outcome, hends⟩ := h s hstart
    exact ⟨outcome, (ends_iff_of_start hstart).mpr hends⟩

/-- **Every execution of a program of the catalog ends.** -/
theorem exists_ends_of_mem_catalog {e : Catalog.Entry} (he : e ∈ Catalog.all)
    (h : m.definitions = e.definitions) (entry : Nat) (arguments : List Value) :
    ∃ outcome, m.Ends entry arguments outcome := by
  have hvalidated := m.validated
  rw [h] at hvalidated
  refine exists_ends_of_start fun s hstart => ?_
  rcases Catalog.eq_gcd_or_forward e he with rfl | hforward
  · have hprogram : m.program = gcd.program :=
      Except.ok.inj (hvalidated.symm.trans gcd.validated)
    rw [hprogram] at hstart ⊢
    exact Gcd.exists_endsFrom_of_start hstart
  · have hprogram : m.program ∈ (validate e.definitions).toOption := by
      rw [hvalidated]
      exact rfl
    obtain ⟨routine, -, -, -, -, -, -, rfl⟩ := start_eq_next_iff.mp hstart
    exact exists_endsFrom_of_forward (hforward m.program hprogram) m.limits rfl

theorem not_ends_stuck_of_mem_catalog {e : Catalog.Entry} (he : e ∈ Catalog.all)
    (h : m.definitions = e.definitions) : ¬ m.Ends entry arguments (.failed .stuck) := by
  have hvalidated := m.validated
  rw [h] at hvalidated
  have hprogram : m.program ∈ (validate e.definitions).toOption := by
    rw [hvalidated]
    exact rfl
  intro hstuck
  obtain ⟨r, hr, hslots⟩ := hstuck.exists_slotLimit_le
  exact absurd (Catalog.slots_lt e he m.program hprogram r hr) (Nat.not_lt.mpr hslots)

end Machine

end StackMachine
