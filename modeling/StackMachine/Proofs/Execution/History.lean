import Mathlib.Data.List.Forall2
import Mathlib.Logic.Function.Iterate
import StackMachine.Proofs.Execution.Attribution

/-!
# The log is a faithful history

While it works, an execution reports what it enters, what it dispatches and what it leaves.  This
file reads that log on its own, without the machine that wrote it, and proves that what it says is
so.

`Machine.history` is the log after a number of steps, each event with the stack as it lay when the
event was reported (`trace_eq_history`).  From the log alone one can tell which invocations are
open: an `entered` opens one, a `left` closes the one that was opened last, and what is dispatched
in between belongs to it.  This is `openInvocations`, and for each of them it keeps the
operations dispatched so far.

The proof compares the open invocations with the live frames.  They are the same, in the same
order: the next position of a frame is where its last operation leads, and its slots hold what was
stored last (`Invocation.Tracks`).  A step keeps this (`Agrees.next`), since it reports exactly
what its turn does,

    (step program limits s).events = dispatched operation ++ (turn program limits …).report

(`events_step`), so it holds of whole executions (`Machine.history_agrees`).  The main result is
`Machine.log_is_faithful`.
-/

namespace StackMachine

/-! ### The log with its stacks -/

/-- An event, and the stack as it lay when the event was reported. -/
structure Moment where
  event : Event
  stack : Stack Value

def Step.moments (x : Step) (stack : Stack Value) : List Moment :=
  x.events.map (⟨·, stack⟩)

/-- A beginning of an execution: what was reported, and where it leads. -/
structure History where
  log : List Moment
  transition : Transition

/-- One step more, unless the execution is over. -/
def History.extend (program : Program) (limits : Limits) (h : History) : History :=
  match h.transition with
  | .next s =>
    ⟨h.log ++ (step program limits s).moments s.stack, (step program limits s).transition⟩
  | .halt _ => h

def Transition.outcome? : Transition → Option Outcome
  | .next _ => none
  | .halt outcome => some outcome

namespace Machine

def opening (m : Machine) (entry : Nat) (arguments : List Value) : History where
  log := (start m.program m.limits entry arguments).moments (.ofList arguments)
  transition := (start m.program m.limits entry arguments).transition

/-- The first `n` steps of an execution, or all of them if there are fewer. -/
def history (m : Machine) (entry : Nat) (arguments : List Value) (n : Nat) : History :=
  (History.extend m.program m.limits)^[n] (m.opening entry arguments)

end Machine

/-! ### Invocations in a log -/

/-- An operation that an invocation has dispatched, and the stack on which it did. -/
structure Dispatch where
  position : Nat
  op : Op
  stack : Stack Value

namespace Dispatch

/-- The value on top, which is what an operation that pops takes first. -/
def popped? (d : Dispatch) : Option Value := d.stack.pop?.map Prod.fst

/-- Where the invocation goes on: at the target of a branch that is taken, or one further. -/
def next (d : Dispatch) : Nat :=
  match d.op with
  | .branch target => target
  | .branchIf flag target =>
    if d.popped? = some (.boolean flag) then target else d.position + 1
  | _ => d.position + 1

end Dispatch

/-- An invocation as a log shows it. -/
structure Invocation where
  function : Nat
  /-- What it has dispatched itself, the last first. -/
  dispatches : List Dispatch

namespace Invocation

/-- The position of the operation that it dispatches next. -/
def next (i : Invocation) : Nat :=
  match i.dispatches with
  | [] => 0
  | d :: _ => d.next

def dispatch (i : Invocation) (d : Dispatch) : Invocation :=
  { i with dispatches := d :: i.dispatches }

def lastStore? (i : Invocation) (slot : Nat) : Option Dispatch :=
  i.dispatches.find? (·.op = .store slot)

end Invocation

/-- The invocations that are open after a moment, if `opened` are before it. -/
def Moment.update (opened : List Invocation) (m : Moment) : List Invocation :=
  match m.event, opened with
  | .entered function _ _, _ => ⟨function, []⟩ :: opened
  | .dispatched site op, i :: outer => i.dispatch ⟨site.position, op, m.stack⟩ :: outer
  | .left _ _, _ :: outer => outer
  | _, _ => opened

/-- The invocations that a log has entered and not left, the innermost first. -/
def openInvocations (log : List Moment) : List Invocation :=
  log.foldl Moment.update []

theorem openInvocations_concat (log : List Moment) (m : Moment) :
    openInvocations (log ++ [m]) = m.update (openInvocations log) := by
  rw [openInvocations, List.foldl_append]
  rfl

/-! ### Faithful logs -/

/-- What an event says is so, after what the log says before it. -/
def Event.IsTrue (program : Program) (before : List Moment) : Event → Prop
  | .entered _ depth _ => depth = 1 + (openInvocations before).length
  | .dispatched site op =>
    ∃ i outer, openInvocations before = i :: outer ∧ site.function = i.function ∧
      site.position = i.next ∧ site.op? program = some op
  | .left function outputs =>
    ∃ i outer routine, openInvocations before = i :: outer ∧ function = i.function ∧
      program[function]? = some routine ∧ outputs = routine.outputs.length ∧
      ((∃ position stack,
          before.getLast? = some ⟨.dispatched ⟨function, position⟩ .exit, stack⟩) ∨
        i.next = routine.ops.size)
  | .validated .. => False

def Faithful (program : Program) (log : List Moment) : Prop :=
  ∀ before m after, log = before ++ m :: after → m.event.IsTrue program before

theorem faithful_nil (program : Program) : Faithful program [] := by
  intro before m after h
  exact absurd h.symm (List.append_ne_nil_of_right_ne_nil _ (List.cons_ne_nil _ _))

theorem Faithful.concat {program : Program} {log : List Moment} {m : Moment}
    (h : Faithful program log) (hm : m.event.IsTrue program log) :
    Faithful program (log ++ [m]) := by
  intro before m' after hsplit
  rcases List.eq_nil_or_concat after with rfl | ⟨rest, last, rfl⟩
  · obtain ⟨rfl, hlast⟩ := List.append_inj' hsplit rfl
    obtain rfl : m = m' := List.singleton_inj.mp hlast
    exact hm
  · rw [List.concat_eq_append, ← List.cons_append, ← List.append_assoc] at hsplit
    exact h before m' rest (List.append_inj' hsplit rfl).1

/-! ### What a step reports -/

/-- What is reported of the function that is called next. -/
def State.calleeEvents (program : Program) (s : State) : List Event :=
  match s.op? program with
  | some (.call callee) =>
    match program[callee]? with
    | some target => target.entryEvents callee s.frame.base (s.suspended.size + 2) s.stack
    | none => []
  | _ => []

/-- What is reported of a turn, after the operation that is dispatched in it. -/
def Turn.report (program : Program) (s : State) : Turn → List Event
  | .fail (.fault _) => []
  -- a callee that does not fit into memory has been reported by then
  | .fail .stuck => s.calleeEvents program
  | .proceed _ _ => []
  | .call inner => [.entered inner.function (s.suspended.size + 2) inner.base]
  | .leave =>
    (program[s.frame.function]?.map fun r => .left s.frame.function r.outputs.length).toList

section Events

variable {program : Program} {limits : Limits} {s : State}

theorem calleeEvents_of_call {callee : Nat} {target : Routine}
    (hop : s.op? program = some (.call callee)) (htarget : program[callee]? = some target) :
    s.calleeEvents program =
      target.entryEvents callee s.frame.base (s.suspended.size + 2) s.stack := by
  simp only [State.calleeEvents, hop, htarget]

/-- Only a call reports anything of a turn that fails. -/
theorem report_fail (hop : ∀ callee, s.op? program ≠ some (.call callee)) (failure : Failure) :
    (Turn.fail failure).report program s = [] := by
  cases failure with
  | fault fault => rfl
  | stuck => simp only [Turn.report, State.calleeEvents]

theorem events_finish {r : Routine} (hr : program[s.frame.function]? = some r)
    (hop : ∀ callee, s.op? program ≠ some (.call callee)) :
    (s.finish r).events = (r.lastTurn s.frame s.stack).report program s := by
  simp only [State.finish, Routine.lastTurn]
  cases r.leave s.frame s.stack with
  | error failure => exact (report_fail hop failure).symm
  | ok u =>
    simp only [Turn.report, hr]
    cases s.suspended.pop? <;> rfl

theorem events_invoke {callee : Nat} (hop : s.op? program = some (.call callee)) :
    (State.invoke { s with frame := s.frame.advance } program limits s.frame.site callee).events =
      (callTurn program limits (s.suspended.size + 1) s.frame s.stack callee).report program s := by
  simp only [State.invoke, callTurn]
  by_cases hdepth : limits.callDepth < s.suspended.size + 2
  · rw [if_pos hdepth, if_pos hdepth]
    rfl
  rw [if_neg hdepth, if_neg hdepth]
  cases htarget : program[callee]? with
  | none => simp only [Step.fail, Turn.report, State.calleeEvents, hop, htarget]
  | some target =>
    simp only [Frame.advance]
    cases ha : target.activate callee s.frame.base s.stack with
    | error failure =>
      cases failure with
      | fault fault => exact target.entryEvents_of_fault ha _
      | stuck => exact (calleeEvents_of_call hop htarget).symm
    | ok inner =>
      obtain ⟨-, hroom, htypes, rfl⟩ := Routine.activate_eq_ok_iff.mp ha
      exact target.entryEvents_of_enter (Routine.enter_eq_ok_iff.mpr ⟨hroom, htypes, rfl⟩) _

/-- **A step reports its turn**: the operation that is dispatched, if there is one, and then what
becomes of it. -/
theorem events_step (program : Program) (limits : Limits) (s : State) :
    (step program limits s).events = (s.op? program).toList.map (.dispatched s.frame.site) ++
      (turn program limits (s.suspended.size + 1) s.frame s.stack).report program s := by
  simp only [step, turn]
  cases hr : program[s.frame.function]? with
  | none =>
    have hop? : s.op? program = none := by rw [State.op?, hr, Option.bind_none]
    have hreport : (Turn.fail .stuck).report program s = [] := report_fail (by simp [hop?]) .stuck
    simp only [hop?, hreport]
    rfl
  | some routine =>
    have hop? : s.op? program = routine.ops[s.frame.position]? := by
      rw [State.op?, hr, Option.bind_some]
    simp only
    cases hop : routine.ops[s.frame.position]? with
    | none =>
      rw [hop] at hop?
      simp only [hop?]
      exact events_finish hr (by simp [hop?])
    | some op =>
      rw [hop] at hop?
      simp only [hop?, Step.after, Option.toList_some, List.map_cons, List.map_nil,
        List.cons_append, List.nil_append, List.cons.injEq, true_and]
      cases hp : perform limits s.frame.site s.frame.advance s.stack op with
      | error failure =>
        refine (report_fail (fun callee hcall => ?_) failure).symm
        obtain rfl := Option.some.inj (hop?.symm.trans hcall)
        cases hp
      | ok flow =>
        cases flow with
        | proceed frame stack => rfl
        | call callee =>
          obtain rfl := perform_eq_call_iff.mp hp
          exact events_invoke hop?
        | exit =>
          obtain rfl := perform_eq_exit_iff.mp hp
          exact events_finish hr (by simp [hop?])

/-- An execution starts with the entry of its function, or with a fault and no event. -/
theorem start_cases (program : Program) (limits : Limits) (entry : Nat)
    (arguments : List Value) :
    (∃ fault, start program limits entry arguments = .fail (.fault fault)) ∨
      ∃ base, (start program limits entry arguments).events = [.entered entry 1 base] ∧
        ∀ fault, (start program limits entry arguments).transition ≠
          .halt (.failed (.fault fault)) := by
  rcases start_guard_cases program limits entry arguments with
    hfault | ⟨routine, hr, hstack, hdepth⟩
  · exact .inl hfault
  rw [start_of_guards hr hstack hdepth]
  cases ha : routine.activate entry 0 (.ofList arguments) with
  | error failure =>
    cases failure with
    | fault fault => exact .inl ⟨fault, by rw [routine.entryEvents_of_fault ha]; rfl⟩
    | stuck =>
      obtain ⟨-, frame, henter⟩ := (Routine.activate_eq_stuck_iff (Nat.zero_le _)).mp ha
      exact .inr ⟨frame.base, routine.entryEvents_of_enter henter 1, by simp⟩
  | ok frame =>
    have henter := Routine.enter_eq_ok_iff.mpr (Routine.activate_eq_ok_iff.mp ha).2
    exact .inr ⟨frame.base, routine.entryEvents_of_enter henter 1, by simp⟩

end Events

/-! ### The log is the one that is recorded -/

theorem iterate_extend_halt {program : Program} {limits : Limits} {h : History} {outcome : Outcome}
    (hhalt : h.transition = .halt outcome) (n : Nat) :
    (History.extend program limits)^[n] h = h := by
  refine Function.iterate_fixed ?_ n
  simp only [History.extend, hhalt]

theorem toArray_append_events (log : List Moment) (x : Step) (stack : Stack Value) :
    (log.map Moment.event).toArray ++ x.events =
      ((log ++ x.moments stack).map Moment.event).toArray := by
  have hevents : (x.moments stack).map Moment.event = x.events := by
    rw [Step.moments, List.map_map]
    exact List.map_id _
  simp [hevents]

theorem record_eq_history (program : Program) (limits : Limits) (fuel : Nat) (log : List Moment)
    (stack : Stack Value) (x : Step) :
    record program limits (log.map Moment.event).toArray fuel x =
      let h := (History.extend program limits)^[fuel] ⟨log ++ x.moments stack, x.transition⟩
      ((h.log.map Moment.event).toArray, h.transition.outcome?) := by
  have hlog := toArray_append_events log x stack
  induction fuel generalizing log stack x with
  | zero =>
    obtain ⟨events, t | outcome⟩ := x
    · exact congrArg (·, none) hlog
    · exact congrArg (·, some outcome) hlog
  | succ fuel ih =>
    obtain ⟨events, t | outcome⟩ := x
    · have hnext := toArray_append_events (log ++ Step.moments ⟨events, .next t⟩ stack)
        (step program limits t) t.stack
      rw [record, hlog, ih _ t.stack _ hnext, Function.iterate_succ_apply]
      rfl
    · rw [iterate_extend_halt rfl]
      exact congrArg (·, some outcome) hlog

namespace Machine

variable {m : Machine} {entry n : Nat} {arguments : List Value} {s : State} {outcome : Outcome}

theorem trace_eq_history (m : Machine) (entry : Nat) (arguments : List Value) (fuel : Nat) :
    m.trace fuel entry arguments =
      (((m.history entry arguments fuel).log.map Moment.event).toArray,
        (m.history entry arguments fuel).transition.outcome?) :=
  record_eq_history m.program m.limits fuel [] (.ofList arguments) _

theorem log_of_start_fault {fault : Fault}
    (h : (start m.program m.limits entry arguments).transition =
      .halt (.failed (.fault fault))) :
    (m.history entry arguments 0).log = [] := by
  rcases start_cases m.program m.limits entry arguments with ⟨fault', hs⟩ | ⟨base, -, hs⟩
  · show (start m.program m.limits entry arguments).moments _ = []
    rw [hs]
    rfl
  · exact absurd h (hs fault)

theorem log_of_start (h : ∀ fault,
      (start m.program m.limits entry arguments).transition ≠ .halt (.failed (.fault fault))) :
    ∃ base, (m.history entry arguments 0).log =
      [] ++ [⟨.entered entry 1 base, .ofList arguments⟩] := by
  rcases start_cases m.program m.limits entry arguments with ⟨fault, hs⟩ | ⟨base, hs, -⟩
  · exact absurd (by rw [hs]; rfl) (h fault)
  · refine ⟨base, ?_⟩
    show (start m.program m.limits entry arguments).moments _ = _
    rw [Step.moments, hs]
    rfl

theorem history_succ (m : Machine) (entry : Nat) (arguments : List Value) (n : Nat) :
    m.history entry arguments (n + 1) =
      (m.history entry arguments n).extend m.program m.limits :=
  Function.iterate_succ_apply' _ _ _

/-- A history that has not come to an end leads on from a state that the execution passes
through. -/
theorem history_succ_of_next (h : (m.history entry arguments n).transition = .next s) :
    m.history entry arguments (n + 1) =
      ⟨(m.history entry arguments n).log ++ (step m.program m.limits s).moments s.stack,
        (step m.program m.limits s).transition⟩ := by
  rw [history_succ, History.extend, h]

theorem history_succ_of_halt (h : (m.history entry arguments n).transition = .halt outcome) :
    m.history entry arguments (n + 1) = m.history entry arguments n := by
  rw [history_succ, History.extend, h]

theorem reaches_of_history (h : (m.history entry arguments n).transition = .next s) :
    m.Reaches entry arguments s := by
  induction n generalizing s with
  | zero => exact ⟨s, 0, h, .refl s⟩
  | succ n ih =>
    cases hn : (m.history entry arguments n).transition with
    | halt outcome =>
      rw [history_succ_of_halt hn, hn] at h
      cases h
    | next t =>
      rw [history_succ_of_next hn] at h
      exact (ih hn).next h

/-- A history that has come to an end did so when the execution was to start, or by a step. -/
theorem history_halt_cases (h : (m.history entry arguments n).transition = .halt outcome) :
    ((start m.program m.limits entry arguments).transition = .halt outcome ∧
      m.history entry arguments n = m.history entry arguments 0) ∨
    ∃ k s, (m.history entry arguments k).transition = .next s ∧
      (step m.program m.limits s).transition = .halt outcome ∧
      m.history entry arguments n = m.history entry arguments (k + 1) := by
  induction n with
  | zero => exact .inl ⟨h, rfl⟩
  | succ n ih =>
    cases hn : (m.history entry arguments n).transition with
    | halt outcome' =>
      rw [history_succ_of_halt hn] at h ⊢
      exact ih h
    | next s =>
      have hstep := h
      rw [history_succ_of_next hn] at hstep
      exact .inr ⟨n, s, hn, hstep, rfl⟩

end Machine

/-! ### Open invocations are live frames -/

/-- An invocation, as a log shows it, is that of a frame. -/
structure Invocation.Tracks (i : Invocation) (frame : Frame) : Prop where
  function : frame.function = i.function
  position : frame.position = i.next
  slots : ∀ (slot : Nat) (h : slot < frame.slots.size),
    frame.slots[slot].map some = (i.lastStore? slot).map Dispatch.popped?

section Agreement

variable {program : Program} {limits : Limits} {s t : State} {frame frame' : Frame}
  {i : Invocation} {op : Op} {stack stack' : Stack Value} {log : List Moment}

theorem Invocation.lastStore?_dispatch (i : Invocation) (d : Dispatch) (slot : Nat) :
    (i.dispatch d).lastStore? slot =
      if d.op = .store slot then some d else i.lastStore? slot := by
  simp only [lastStore?, dispatch, List.find?_cons]
  by_cases h : d.op = .store slot <;> simp [h]

namespace Invocation.Tracks

theorem fresh (function base slots : Nat) :
    Tracks ⟨function, []⟩ (.fresh function base slots) where
  function := rfl
  position := rfl
  slots := by
    intro slot h
    simp [Frame.fresh, lastStore?]

/-- After an operation that stores nothing, the frame has the slots it had. -/
theorem of_slots (h : i.Tracks frame) {d : Dispatch} (hfunction : frame'.function = frame.function)
    (hposition : frame'.position = d.next) (hslots : frame'.slots = frame.slots)
    (hstore : ∀ slot, d.op ≠ .store slot) : (i.dispatch d).Tracks frame' where
  function := hfunction.trans h.function
  position := hposition
  slots := by
    intro slot hslot
    rw [lastStore?_dispatch, if_neg (hstore slot)]
    simp only [hslots]
    exact h.slots slot (hslots ▸ hslot)

/-- An operation takes a frame to where the log says it leads. -/
theorem proceed (h : i.Tracks frame) (hp : Proceeds limits frame.advance op stack frame' stack') :
    (i.dispatch ⟨frame.position, op, stack⟩).Tracks frame' := by
  cases hp with
  | load | branch | push | unary | binary => exact h.of_slots rfl rfl rfl fun _ => by simp
  | @store slot value rest hs hb =>
    refine ⟨h.function, rfl, ?_⟩
    intro slot' hslot'
    have hslot : slot' < frame.slots.size := by simpa [Frame.advance] using hslot'
    rw [lastStore?_dispatch]
    by_cases heq : slot = slot'
    · subst heq
      simp [Dispatch.popped?]
    · have hne : Op.store slot ≠ .store slot' := fun hop => heq (Op.store.inj hop)
      rw [if_neg hne, Array.getElem_set_ne _ _ heq]
      exact h.slots slot' hslot
  | @branchIf flag b target =>
    have hnext : Dispatch.next ⟨frame.position, .branchIf flag target, stack'.push (.boolean b)⟩ =
        if b = flag then target else frame.position + 1 := by
      simp [Dispatch.next, Dispatch.popped?]
    by_cases hflag : b = flag
    · rw [if_pos hflag] at hnext ⊢
      exact h.of_slots rfl hnext.symm rfl fun _ => by simp
    · rw [if_neg hflag] at hnext ⊢
      exact h.of_slots rfl hnext.symm rfl fun _ => by simp

/-- A call leads to the position after it, whatever the callee does. -/
theorem call (h : i.Tracks frame) (callee : Nat) (stack : Stack Value) :
    (i.dispatch ⟨frame.position, .call callee, stack⟩).Tracks frame.advance :=
  h.of_slots rfl rfl rfl fun _ => by simp

end Invocation.Tracks

/-- A log agrees with a state: it is faithful, and the invocations it shows as open are those of
the live frames. -/
structure Agrees (program : Program) (log : List Moment) (s : State) : Prop where
  faithful : Faithful program log
  tracks : List.Forall₂ Invocation.Tracks (openInvocations log) s.frames

namespace Agrees

/-- The running frame is that of the innermost invocation. -/
theorem cases (h : Agrees program log s) :
    ∃ i outer, openInvocations log = i :: outer ∧ i.Tracks s.frame ∧
      List.Forall₂ Invocation.Tracks outer s.suspended.items := by
  obtain ⟨i, outer, hi, houter, hopen⟩ := List.forall₂_cons_right_iff.mp h.tracks
  exact ⟨i, outer, hopen, hi, houter⟩

/-- The log goes on with the operation that is dispatched. -/
theorem dispatched (h : Agrees program log s) (hop : s.op? program = some op) :
    Faithful program (log ++ [⟨.dispatched s.frame.site op, s.stack⟩]) := by
  obtain ⟨i, outer, hopen, hi, -⟩ := h.cases
  exact h.faithful.concat ⟨i, outer, hopen, hi.function, hi.position, hop⟩

theorem openInvocations_dispatched {outer : List Invocation}
    (hopen : openInvocations log = i :: outer) (site : Site) (op : Op) (stack : Stack Value) :
    openInvocations (log ++ [⟨.dispatched site op, stack⟩]) =
      i.dispatch ⟨site.position, op, stack⟩ :: outer := by
  rw [openInvocations_concat, hopen]
  rfl

/-- The running frame goes on. -/
theorem proceed (h : Agrees program log s)
    (hturn : turn program limits (s.suspended.size + 1) s.frame s.stack = .proceed frame stack) :
    Agrees program (log ++ (step program limits s).moments s.stack)
      ⟨stack, frame, s.suspended⟩ := by
  obtain ⟨routine, op, hr, hop, hp⟩ := turn_eq_proceed_iff.mp hturn
  have hop? : s.op? program = some op := State.op?_eq_some_iff.mpr ⟨routine, hr, hop⟩
  obtain ⟨i, outer, hopen, hi, houter⟩ := h.cases
  rw [Step.moments, events_step, hop?, hturn]
  refine ⟨h.dispatched hop?, ?_⟩
  have hopen' := openInvocations_dispatched hopen s.frame.site op s.stack
  exact hopen' ▸ .cons (hi.proceed hp) houter

/-- A call is dispatched, and the callee is reported. -/
theorem entered (h : Agrees program log s) {callee base : Nat}
    (hop : s.op? program = some (.call callee))
    (hevents : (step program limits s).events = [.dispatched s.frame.site (.call callee),
      .entered callee (s.suspended.size + 2) base]) :
    Faithful program (log ++ (step program limits s).moments s.stack) ∧
      ∃ outer, openInvocations (log ++ (step program limits s).moments s.stack) =
          ⟨callee, []⟩ :: outer ∧
        List.Forall₂ Invocation.Tracks outer (s.frame.advance :: s.suspended.items) := by
  obtain ⟨i, outer, hopen, hi, houter⟩ := h.cases
  have hopen' := openInvocations_dispatched hopen s.frame.site (.call callee) s.stack
  have hlength : s.suspended.size + 1 = (i :: outer).length := by
    rw [← hopen, h.tracks.length_eq, State.length_frames]
  have hlog : log ++ (step program limits s).moments s.stack =
      log ++ [⟨.dispatched s.frame.site (.call callee), s.stack⟩] ++
        [⟨.entered callee (s.suspended.size + 2) base, s.stack⟩] := by
    rw [Step.moments, hevents, List.append_assoc]
    rfl
  rw [hlog]
  refine ⟨(h.dispatched hop).concat ?_, _, ?_, .cons (hi.call callee s.stack) houter⟩
  · show s.suspended.size + 2 = 1 + _
    rw [hopen', List.length_cons, ← List.length_cons (a := i), ← hlength]
    omega
  · rw [openInvocations_concat, hopen']
    rfl

/-- The running frame calls, and the callee is entered. -/
theorem call (h : Agrees program log s)
    (hturn : turn program limits (s.suspended.size + 1) s.frame s.stack = .call frame) :
    Agrees program (log ++ (step program limits s).moments s.stack)
      ⟨s.stack, frame, s.suspended.push s.frame.advance⟩ := by
  obtain ⟨-, routine, callee, target, hr, hop, -, ha⟩ := turn_eq_call_iff.mp hturn
  have hop? : s.op? program = some (.call callee) := State.op?_eq_some_iff.mpr ⟨routine, hr, hop⟩
  obtain ⟨-, -, -, rfl⟩ := Routine.activate_eq_ok_iff.mp ha
  have hevents : (step program limits s).events =
      [.dispatched s.frame.site (.call callee),
        .entered callee (s.suspended.size + 2) (s.stack.size - target.inputs.length)] := by
    rw [events_step, hop?, hturn]
    rfl
  obtain ⟨hfaithful, outer, hopen, houter⟩ := h.entered hop? hevents
  refine ⟨hfaithful, ?_⟩
  rw [hopen]
  exact .cons (.fresh callee _ _) houter

/-- The running frame is left. -/
theorem leave (h : Agrees program log s) (hfits : s.frame.Fits program)
    (hturn : turn program limits (s.suspended.size + 1) s.frame s.stack = .leave) :
    Faithful program (log ++ (step program limits s).moments s.stack) ∧
      List.Forall₂ Invocation.Tracks
        (openInvocations (log ++ (step program limits s).moments s.stack)) s.suspended.items := by
  obtain ⟨routine, hr, hdone, -⟩ := turn_eq_leave_iff.mp hturn
  obtain ⟨i, outer, hopen, hi, houter⟩ := h.cases
  rcases hdone with hop | hop
  · -- the end of the code
    have hlog : log ++ (step program limits s).moments s.stack =
        log ++ [⟨.left s.frame.function routine.outputs.length, s.stack⟩] := by
      rw [Step.moments, events_step, hturn, State.op?, hr, Option.bind_some, hop, Turn.report, hr]
      rfl
    have hend : i.next = routine.ops.size := by
      obtain ⟨routine', hr', -, hle⟩ := hfits
      obtain rfl := Option.some.inj (hr'.symm.trans hr)
      rw [← hi.position]
      exact Nat.le_antisymm hle (Array.getElem?_eq_none_iff.mp hop)
    rw [hlog, openInvocations_concat, hopen]
    exact ⟨h.faithful.concat ⟨i, outer, routine, hopen, hi.function, hr, rfl, .inr hend⟩, houter⟩
  · -- an exit
    have hop? : s.op? program = some .exit := State.op?_eq_some_iff.mpr ⟨routine, hr, hop⟩
    have hopen' := openInvocations_dispatched hopen s.frame.site .exit s.stack
    have hlog : log ++ (step program limits s).moments s.stack =
        log ++ [⟨.dispatched s.frame.site .exit, s.stack⟩] ++
          [⟨.left s.frame.function routine.outputs.length, s.stack⟩] := by
      rw [Step.moments, events_step, hop?, hturn, List.append_assoc, Turn.report, hr]
      rfl
    rw [hlog, openInvocations_concat, hopen']
    refine ⟨(h.dispatched hop?).concat ?_, houter⟩
    exact ⟨_, outer, routine, hopen', hi.function, hr, rfl,
      .inl ⟨s.frame.position, s.stack, List.getLast?_concat⟩⟩

theorem functions_of_tracks {invocations : List Invocation} {frames : List Frame}
    (h : List.Forall₂ Invocation.Tracks invocations frames) :
    invocations.map Invocation.function = frames.map Frame.function := by
  rw [← List.forall₂_eq_eq_eq, List.forall₂_map_left_iff, List.forall₂_map_right_iff]
  exact h.imp fun _ _ hi => hi.function.symm

/-- The running frame fails, and nothing is entered or left any more. -/
theorem fail (h : Agrees program log s) {fault : Fault}
    (hturn : turn program limits (s.suspended.size + 1) s.frame s.stack = .fail (.fault fault)) :
    Faithful program (log ++ (step program limits s).moments s.stack) ∧
      (openInvocations (log ++ (step program limits s).moments s.stack)).map
        Invocation.function = s.frames.map Frame.function := by
  rw [Step.moments, events_step, hturn, ← functions_of_tracks h.tracks]
  cases hop? : s.op? program with
  | none =>
    show Faithful program (log ++ []) ∧ (openInvocations (log ++ [])).map _ = _
    rw [List.append_nil]
    exact ⟨h.faithful, rfl⟩
  | some op =>
    obtain ⟨i, outer, hopen, -, -⟩ := h.cases
    have hopen' := openInvocations_dispatched hopen s.frame.site op s.stack
    refine ⟨h.dispatched hop?, ?_⟩
    show (openInvocations (log ++ [_])).map _ = _
    rw [hopen', hopen]
    rfl

/-- The running frame calls a function that is reported, but has no room in memory. -/
theorem stuck (h : Agrees program log s) (hrange : s.InRange program)
    (hturn : turn program limits (s.suspended.size + 1) s.frame s.stack = .fail .stuck) :
    Faithful program (log ++ (step program limits s).moments s.stack) ∧
      ∃ callee outer routine,
        openInvocations (log ++ (step program limits s).moments s.stack) =
          ⟨callee, []⟩ :: outer ∧
        program[callee]? = some routine ∧ Frame.slotLimit ≤ routine.slots ∧
        outer.map Invocation.function = s.frames.map Frame.function := by
  obtain ⟨-, callee, target, hop, htarget, ha⟩ := hrange.turn_eq_stuck_iff.mp hturn
  obtain ⟨hslots, inner, henter⟩ := (Routine.activate_eq_stuck_iff hrange.base).mp ha
  have hevents : (step program limits s).events =
      [.dispatched s.frame.site (.call callee),
        .entered callee (s.suspended.size + 2) inner.base] := by
    rw [events_step, hop, hturn, Turn.report, calleeEvents_of_call hop htarget,
      target.entryEvents_of_enter henter]
    rfl
  obtain ⟨hfaithful, outer, hopen, houter⟩ := h.entered hop hevents
  -- the caller is already past the call, which does not show in its function
  have hfunctions : outer.map Invocation.function = s.frames.map Frame.function :=
    (functions_of_tracks houter :)
  exact ⟨hfaithful, callee, outer, target, hopen, htarget, hslots, hfunctions⟩

/-- **What a step keeps.** -/
theorem next (h : Agrees program log s) (hfits : s.frame.Fits program)
    (hnext : Next program limits s t) :
    Agrees program (log ++ (step program limits s).moments s.stack) t := by
  rcases hnext.cases with ⟨frame, stack, hturn, rfl⟩ | ⟨inner, hturn, rfl⟩ |
    ⟨caller, rest, hturn, hpush, rfl⟩
  · exact h.proceed hturn
  · exact h.call hturn
  · obtain ⟨hfaithful, htracks⟩ := h.leave hfits hturn
    rw [hpush] at htracks
    exact ⟨hfaithful, htracks⟩

end Agrees

end Agreement

/-! ### Executions -/

namespace Machine

variable {m : Machine} {entry n : Nat} {arguments : List Value} {s : State}

/-- **What a whole execution keeps.** -/
theorem history_agrees (h : (m.history entry arguments n).transition = .next s) :
    Agrees m.program (m.history entry arguments n).log s := by
  induction n generalizing s with
  | zero =>
    obtain ⟨base, hlog⟩ := log_of_start fun fault hfault => by cases h.symm.trans hfault
    obtain ⟨routine, -, -, -, -, -, -, rfl⟩ := start_eq_next_iff.mp h
    rw [hlog]
    exact ⟨(faithful_nil m.program).concat rfl, .cons (.fresh entry 0 _) .nil⟩
  | succ n ih =>
    cases hn : (m.history entry arguments n).transition with
    | halt outcome =>
      rw [history_succ_of_halt hn, hn] at h
      cases h
    | next t =>
      rw [history_succ_of_next hn] at h ⊢
      have hfits := (reaches_of_history hn).sound.fits t.frame List.mem_cons_self
      exact (ih hn).next hfits h

theorem history_returned {values : List Value}
    (h : (m.history entry arguments n).transition = .halt (.returned values)) :
    Faithful m.program (m.history entry arguments n).log ∧
      openInvocations (m.history entry arguments n).log = [] := by
  rcases history_halt_cases h with ⟨hstart, -⟩ | ⟨k, s, hk, halt, heq⟩
  · obtain ⟨failure, hfailure⟩ := exists_failure_of_start_halt hstart
    cases hfailure
  rcases halt_cases halt with ⟨failure, -, houtcome⟩ | ⟨hturn, halone, -⟩
  · cases houtcome
  have hfits := (reaches_of_history hk).sound.fits s.frame List.mem_cons_self
  obtain ⟨hfaithful, htracks⟩ := (history_agrees hk).leave hfits hturn
  rw [halone, Stack.items_empty, List.forall₂_nil_right_iff] at htracks
  rw [heq, history_succ_of_next hk]
  exact ⟨hfaithful, htracks⟩

theorem history_failed {fault : Fault}
    (h : (m.history entry arguments n).transition = .halt (.failed (.fault fault))) :
    Faithful m.program (m.history entry arguments n).log ∧
      (((start m.program m.limits entry arguments).transition = .halt (.failed (.fault fault)) ∧
        (m.history entry arguments n).log = []) ∨
      ∃ s, m.Reaches entry arguments s ∧
        (step m.program m.limits s).transition = .halt (.failed (.fault fault)) ∧
        (openInvocations (m.history entry arguments n).log).map Invocation.function =
          s.frames.map Frame.function) := by
  rcases history_halt_cases h with ⟨hstart, heq⟩ | ⟨k, s, hk, halt, heq⟩
  · rw [heq, log_of_start_fault hstart]
    exact ⟨faithful_nil m.program, .inl ⟨hstart, rfl⟩⟩
  · rcases halt_cases halt with ⟨failure, hturn, houtcome⟩ | ⟨-, -, houtcome⟩
    · cases houtcome
      obtain ⟨hfaithful, hfunctions⟩ := (history_agrees hk).fail hturn
      rw [heq, history_succ_of_next hk]
      exact ⟨hfaithful, .inr ⟨s, reaches_of_history hk, halt, hfunctions⟩⟩
    · cases houtcome

theorem history_stuck (h : (m.history entry arguments n).transition = .halt (.failed .stuck)) :
    Faithful m.program (m.history entry arguments n).log ∧
      ∃ callee outer routine,
        openInvocations (m.history entry arguments n).log = ⟨callee, []⟩ :: outer ∧
        m.program[callee]? = some routine ∧ Frame.slotLimit ≤ routine.slots ∧
        (((start m.program m.limits entry arguments).transition = .halt (.failed .stuck) ∧
          callee = entry ∧ outer = []) ∨
        ∃ s, m.Reaches entry arguments s ∧
          (step m.program m.limits s).transition = .halt (.failed .stuck) ∧
          outer.map Invocation.function = s.frames.map Frame.function) := by
  rcases history_halt_cases h with ⟨hstart, heq⟩ | ⟨k, s, hk, halt, heq⟩
  · obtain ⟨base, hlog⟩ := log_of_start fun fault hfault => by cases hstart.symm.trans hfault
    obtain ⟨routine, hr, -, -, ha⟩ := start_eq_stuck_iff.mp hstart
    obtain ⟨hslots, -⟩ := (Routine.activate_eq_stuck_iff (Nat.zero_le _)).mp ha
    rw [heq, hlog]
    exact ⟨(faithful_nil m.program).concat rfl, entry, [], routine, rfl, hr, hslots,
      .inl ⟨hstart, rfl, rfl⟩⟩
  · rcases halt_cases halt with ⟨failure, hturn, houtcome⟩ | ⟨-, -, houtcome⟩
    · cases houtcome
      have hs := reaches_of_history hk
      obtain ⟨hfaithful, callee, outer, routine, hopen, hr, hslots, houter⟩ :=
        (history_agrees hk).stuck hs.inRange hturn
      rw [heq, history_succ_of_next hk]
      exact ⟨hfaithful, callee, outer, routine, hopen, hr, hslots, .inr ⟨s, hs, halt, houter⟩⟩
    · cases houtcome

/-- **The log is a faithful history.**  What an execution reports in any number of steps is the
log of its history.  Each event of it says what is so: an `entered` shows one more than the
number of invocations that are open, a `left` closes the innermost of them, and a `dispatched`
continues it where its last operation led.  While the execution goes on, the open invocations are
its live frames; when it has returned there are none, and when it has failed they are those of the
frames that were live then.  If it gets stuck, the function that does not fit into memory is open
as well, and no other. -/
theorem log_is_faithful (m : Machine) (entry : Nat) (arguments : List Value) (fuel : Nat) :
    m.trace fuel entry arguments =
      (((m.history entry arguments fuel).log.map Moment.event).toArray,
        (m.history entry arguments fuel).transition.outcome?) ∧
    Faithful m.program (m.history entry arguments fuel).log ∧
    (∀ s, (m.history entry arguments fuel).transition = .next s →
      List.Forall₂ Invocation.Tracks
        (openInvocations (m.history entry arguments fuel).log) s.frames) ∧
    (∀ values, (m.history entry arguments fuel).transition = .halt (.returned values) →
      openInvocations (m.history entry arguments fuel).log = []) ∧
    (∀ fault, (m.history entry arguments fuel).transition = .halt (.failed (.fault fault)) →
      ((start m.program m.limits entry arguments).transition = .halt (.failed (.fault fault)) ∧
        (m.history entry arguments fuel).log = []) ∨
      ∃ s, m.Reaches entry arguments s ∧
        (step m.program m.limits s).transition = .halt (.failed (.fault fault)) ∧
        (openInvocations (m.history entry arguments fuel).log).map Invocation.function =
          s.frames.map Frame.function) ∧
    ((m.history entry arguments fuel).transition = .halt (.failed .stuck) →
      ∃ callee outer routine,
        openInvocations (m.history entry arguments fuel).log = ⟨callee, []⟩ :: outer ∧
        m.program[callee]? = some routine ∧ Frame.slotLimit ≤ routine.slots ∧
        (((start m.program m.limits entry arguments).transition = .halt (.failed .stuck) ∧
          callee = entry ∧ outer = []) ∨
        ∃ s, m.Reaches entry arguments s ∧
          (step m.program m.limits s).transition = .halt (.failed .stuck) ∧
          outer.map Invocation.function = s.frames.map Frame.function)) := by
  refine ⟨m.trace_eq_history entry arguments fuel, ?_, ?_, ?_, ?_, ?_⟩
  · cases hn : (m.history entry arguments fuel).transition with
    | next s => exact (history_agrees hn).faithful
    | halt outcome =>
      cases outcome with
      | returned values => exact (history_returned hn).1
      | failed failure =>
        cases failure with
        | fault fault => exact (history_failed hn).1
        | stuck => exact (history_stuck hn).1
  · intro s hn
    exact (history_agrees hn).tracks
  · intro values hn
    exact (history_returned hn).2
  · intro fault hn
    exact (history_failed hn).2
  · intro hn
    exact (history_stuck hn).2

/-- With room for one value only, the helper that squares fails while both invocations are open;
and a function with too many slots is open when it gets stuck. -/
theorem squaring_fails_with_two_open :
    (squaring.history 0 [.integer 7, .integer 5] 1).transition = .next helperEntered ∧
    List.Forall₂ Invocation.Tracks
      (openInvocations (squaring.history 0 [.integer 7, .integer 5] 1).log) helperEntered.frames ∧
    (squaring.history 0 [.integer 5] 7).transition = .halt (.returned [.integer 25]) ∧
    openInvocations (squaring.history 0 [.integer 5] 7).log = [] ∧
    ((squaring.withLimits ⟨2, 1⟩).history 0 [.integer 5] 4).transition =
      .halt (.failed (.fault (.stackOverflow ⟨1, 2⟩ 1))) ∧
    (∃ s, (squaring.withLimits ⟨2, 1⟩).Reaches 0 [.integer 5] s ∧
      s.frames.map Frame.function = [1, 0]) ∧
    (hoarding.history 0 [] 0).transition = .halt (.failed .stuck) ∧
    ∃ callee outer, openInvocations (hoarding.history 0 [] 0).log = ⟨callee, []⟩ :: outer := by
  have hnext : (squaring.history 0 [.integer 7, .integer 5] 1).transition = .next helperEntered :=
    rfl
  have hreturned : (squaring.history 0 [.integer 5] 7).transition =
      .halt (.returned [.integer 25]) := rfl
  have hfailed : ((squaring.withLimits ⟨2, 1⟩).history 0 [.integer 5] 4).transition =
      .halt (.failed (.fault (.stackOverflow ⟨1, 2⟩ 1))) := rfl
  have hstuck : (hoarding.history 0 [] 0).transition = .halt (.failed .stuck) := rfl
  obtain ⟨-, -, htracks, -, -⟩ := squaring.log_is_faithful 0 [.integer 7, .integer 5] 1
  obtain ⟨-, -, -, hclosed, -⟩ := squaring.log_is_faithful 0 [.integer 5] 7
  obtain ⟨-, -, -, -, hopen, -⟩ := (squaring.withLimits ⟨2, 1⟩).log_is_faithful 0 [.integer 5] 4
  obtain ⟨-, -, -, -, -, hentered⟩ := hoarding.log_is_faithful 0 [] 0
  refine ⟨hnext, htracks _ hnext, hreturned, hclosed _ hreturned, hfailed, ?_, hstuck, ?_⟩
  · rcases hopen _ hfailed with ⟨hstart, -⟩ | ⟨s, hs, -, hfunctions⟩
    · cases hstart
    · exact ⟨s, hs, hfunctions.symm⟩
  · obtain ⟨callee, outer, -, hcallee, -⟩ := hentered hstuck
    exact ⟨callee, outer, hcallee⟩

end Machine

end StackMachine
