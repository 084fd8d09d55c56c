import StackMachine.Proofs.Execution.History

/-!
# Slots are private

A slot belongs to one invocation.  What a load finds in it is what the same invocation stored there
last, however many other invocations, of other functions or of the same one, have stored into slots
of the same number in between; and where the invocation has stored nothing, the execution fails.

Which stores are those of the same invocation can be read off the log: they are among the
operations that the innermost open invocation has dispatched (`openInvocations`).  The invariant
of histories already ties them to the slots of the frame (`Invocation.Tracks`), so what is left is
to look at the one step that loads (`Machine.load_reads_last_store`).
-/

namespace StackMachine

/-- What a frame holds in a slot: what was stored there last, and nothing if nothing was. -/
theorem Invocation.Tracks.slot_cases {i : Invocation} {frame : Frame} (h : i.Tracks frame)
    {slot : Nat} (hslot : slot < frame.slots.size) :
    (∃ d value, i.lastStore? slot = some d ∧ d.popped? = some value ∧
      frame.slots[slot]? = some (some value)) ∨
    (i.lastStore? slot = none ∧ frame.slots[slot]? = some none) := by
  have hslots := h.slots slot hslot
  rw [Array.getElem?_eq_getElem hslot]
  cases hlast : i.lastStore? slot with
  | none =>
    rw [hlast, Option.map_none, Option.map_eq_none_iff] at hslots
    exact .inr ⟨rfl, congrArg some hslots⟩
  | some d =>
    rw [hlast, Option.map_some, Option.map_eq_some_iff] at hslots
    obtain ⟨value, hvalue, hpopped⟩ := hslots
    exact .inl ⟨d, value, rfl, hpopped.symm, congrArg some hvalue⟩

namespace Machine

variable {m : Machine} {entry n slot : Nat} {arguments : List Value} {s : State}

theorem Reaches.ends_of_fails {op : Op} {fault : Fault} (h : m.Reaches entry arguments s)
    (hop : s.op? m.program = some op)
    (hfails : Fails m.limits s.frame.site s.frame.advance op s.stack fault) :
    m.Ends entry arguments (.failed (.fault fault)) := by
  obtain ⟨routine, hr, hop⟩ := State.op?_eq_some_iff.mp hop
  have hturn : TurnFails m.program m.limits (s.suspended.size + 1) s.frame s.stack fault :=
    .operation hr hop hfails
  exact h.ends ⟨0, s, .refl s, hturn.halt⟩

/-- **A load reads the last store of its own invocation.**  When an execution has come to a load,
let `i` be the innermost invocation that its log shows as open.  If `i` has stored into the slot,
the load pushes what the last of these stores popped, or fails for want of room; if it has not, the
execution fails at the load because the slot is unset. -/
theorem load_reads_last_store (h : (m.history entry arguments n).transition = .next s)
    (hop : s.op? m.program = some (.load slot)) :
    ∃ i outer, openInvocations (m.history entry arguments n).log = i :: outer ∧
      i.function = s.frame.function ∧ i.next = s.frame.position ∧
      (∀ d, i.lastStore? slot = some d → ∃ value, d.popped? = some value ∧
        (s.stack.size < m.limits.stackDepth →
          Next m.program m.limits s ⟨s.stack.push value, s.frame.advance, s.suspended⟩) ∧
        (m.limits.stackDepth ≤ s.stack.size →
          m.Ends entry arguments
            (.failed (.fault (.stackOverflow s.frame.site m.limits.stackDepth))))) ∧
      ((∀ d ∈ i.dispatches, d.op ≠ .store slot) →
        m.Ends entry arguments (.failed (.fault (.unsetSlot s.frame.site slot)))) := by
  have hreaches := reaches_of_history h
  have hslot := (hreaches.sound.inRange (validate_sound m.validated)).slot slot (.inl hop)
  obtain ⟨i, outer, hopen, hi, -⟩ := (history_agrees h).cases
  refine ⟨i, outer, hopen, hi.function.symm, hi.position.symm, ?_, ?_⟩
  · intro d hd
    rcases hi.slot_cases hslot with ⟨d', value, hd', hpopped, hset⟩ | ⟨hnone, -⟩
    · obtain rfl := Option.some.inj (hd.symm.trans hd')
      refine ⟨value, hpopped, ?_, ?_⟩
      · intro hroom
        obtain ⟨routine, hr, hop⟩ := State.op?_eq_some_iff.mp hop
        exact .of_proceeds hr hop (.load hset hroom)
      · intro hfull
        exact hreaches.ends_of_fails hop (.loadFull hset hfull)
    · rw [hnone] at hd
      cases hd
  · intro hnone
    rcases hi.slot_cases hslot with ⟨d, value, hd, -⟩ | ⟨-, hunset⟩
    · have hstore : d.op = .store slot := by simpa using List.find?_some hd
      exact absurd hstore (hnone d (List.mem_of_find?_eq_some hd))
    · exact hreaches.ends_of_fails hop (.loadUnset hunset)

/-- A function that adds the numbers from one to its argument, by recursion.  It loads its slot
again after the call, in which the callee has stored into a slot of the same number. -/
def summation : Routine where
  ops := #[.store 0, .load 0, .push (.integer 0), .binary (.compare .equal), .branchIf true 12,
    .load 0, .push (.integer 1), .binary (.integer .subtract), .call 0, .load 0,
    .binary (.integer .add), .exit,
    -- 12: nothing is left to add
    .push (.integer 0)]
  inputs := [.integer]
  outputs := [.integer]
  slots := 1

def summing : Machine where
  definitions := [summation.encode]
  program := #[summation]
  validated := rfl

def summandDue : State where
  stack := .ofList [.integer 0]
  frame := ⟨0, 9, #[some (.integer 1)], 0⟩
  suspended := .empty

theorem summing_loads_own_slot :
    (summing.history 0 [.integer 1] 16).transition = .next summandDue ∧
      summandDue.op? summing.program = some (.load 0) ∧
      Next summing.program summing.limits summandDue
        ⟨.ofList [.integer 0, .integer 1], summandDue.frame.advance, .empty⟩ := by
  have hnext : (summing.history 0 [.integer 1] 16).transition = .next summandDue := rfl
  have hop : summandDue.op? summing.program = some (.load 0) := rfl
  obtain ⟨i, outer, hopen, -, -, hstored, -⟩ := load_reads_last_store hnext hop
  have hlast : (i.lastStore? 0).bind Dispatch.popped? = some (.integer 1) := by
    have hlog : (openInvocations (summing.history 0 [.integer 1] 16).log).head?.bind
        (fun i => (i.lastStore? 0).bind Dispatch.popped?) = some (.integer 1) := rfl
    rw [hopen] at hlog
    exact hlog
  obtain ⟨d, hd, hpopped⟩ := Option.bind_eq_some_iff.mp hlast
  obtain ⟨value, hvalue, hload, -⟩ := hstored d hd
  obtain rfl := Option.some.inj (hpopped.symm.trans hvalue)
  exact ⟨hnext, hop, hload (by decide)⟩

end Machine

end StackMachine
