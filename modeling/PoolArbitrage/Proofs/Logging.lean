import Mathlib
import PoolArbitrage.Proofs.Judgement
import PoolArbitrage.Scan

/-!
# Logging does not interfere

A logged computation is a function of the threshold in force, so it could give another value or say
other things under another threshold. It does not. A computation is *filtered* when its value is the
same under each threshold and what it writes is what it writes under the lowest one, in order, less
what the threshold holds back (`Logged.Filtered`). It is *errorless* when besides nothing it states
is at the level of errors (`Logged.Errorless`).

Single statements are filtered, and what is put together from filtered computations is filtered:
what comes after a step depends on the value of the step, which no threshold changes
(`Logged.filtered_bind`). So the search for an amount, the costs, the decision, the judgement of a
candidate, the walk for cycles and the scan are filtered, one after the other.

They are errorless as well, since a step need be errorless on the value of the step before only.
The decision states an error on a zero amount, but is never asked about one; the judgement states
its defects as errors, but has none to state (`Candidate.errorless_judge`). Only a scan that cannot
start states an error.

**Time.** To write a line takes time, and time can bring the deadline on. But all a scan learns of
the time are the answers to its checks; so runs whose checks find the same come to one report
(`Scan.value_withSchedule_congr`).

**Theorem (`Scan.logging_does_not_interfere`).** Two scans of one context give one report under any
two thresholds, if their checks find the same, and write what passes the threshold of all there is
to say, in order.
-/

namespace PoolArbitrage

/-- **The schedules check alike**: they run the tasks in one order, and at each reading both clocks
find the deadline reached or neither does. -/
structure Schedule.ChecksAlike (schedule schedule' : Schedule)
    (deadline : Deadline) : Prop where
  order : schedule.order = schedule'.order
  checks : ∀ reading,
    deadline.reached (schedule.clock reading) = deadline.reached (schedule'.clock reading)

/-- The line passes a threshold. -/
def Message.passes (limit : Level) (m : Message) : Bool := limit.triggers m.level.rank

theorem Level.trace_triggers (r : Nat) : Level.trace.triggers r = true :=
  decide_eq_true (Nat.zero_le r)

namespace Logged

variable {α β : Type} {x : Logged α} {f : α → Logged β}

/-! ## All there is to say -/

/-- All statements of a computation, whatever the threshold. -/
def statements (x : Logged α) : List Message := x.messages .trace

@[simp] theorem statements_bind (x : Logged α) (f : α → Logged β) :
    statements (x >>= f) = statements x ++ statements (f x.value) := rfl

@[simp] theorem statements_note (level : Level) (text : Thunk String) :
    statements (note level text) = [⟨level, text.get⟩] := by
  show (if Level.trace.triggers level.rank then [(⟨level, text.get⟩ : Message)] else []) = _
  rw [if_pos (Level.trace_triggers level.rank)]

@[simp] theorem statements_each (f : α → Logged β) (as : List α) :
    statements (each f as) = as.flatMap fun a => statements (f a) :=
  messages_each f as .trace

@[simp] theorem statements_noteEach (level : Level) (text : α → String) (as : List α) :
    statements (noteEach level text as) = as.map fun a => ⟨level, text a⟩ := by
  show (if Level.trace.triggers level.rank then as.map fun a => (⟨level, text a⟩ : Message)
    else []) = _
  rw [if_pos (Level.trace_triggers level.rank)]

/-! ## Filtered computations -/

/-- **The threshold filters and does nothing else.** -/
structure Filtered (x : Logged α) : Prop where
  run_eq : ∀ limit, x.run limit = (x.value, x.statements.filter (·.passes limit))

theorem filtered_pure (a : α) : Filtered (pure a : Logged α) := ⟨fun _ => rfl⟩

/-- **A step after a filtered one gets the same value under each threshold.** -/
theorem filtered_bind (hx : Filtered x) (hf : Filtered (f x.value)) : Filtered (x >>= f) := by
  refine ⟨fun limit => ?_⟩
  have hrun : (x >>= f).run limit =
      (((f (x.run limit).1).run limit).1, (x.run limit).2 ++ ((f (x.run limit).1).run limit).2) :=
    rfl
  rw [hrun, hx.run_eq limit, hf.run_eq limit, statements_bind, List.filter_append,
    value_bind]

theorem filtered_note (level : Level) (text : Thunk String) : Filtered (note level text) := by
  refine ⟨fun limit => ?_⟩
  have hrun : (note level text).run limit =
      ((), if limit.triggers level.rank then [⟨level, text.get⟩] else []) := rfl
  rw [hrun, statements_note]
  cases hpass : limit.triggers level.rank <;> simp [hpass, Message.passes]

theorem filtered_each (hf : ∀ a, Filtered (f a)) (as : List α) : Filtered (each f as) := by
  refine ⟨fun limit => ?_⟩
  have hrun : (each f as).run limit =
      (as.map fun a => ((f a).run limit).1, as.flatMap fun a => ((f a).run limit).2) := by
    simp [each, run, List.flatMap_map]
  simp only [hrun, (hf _).run_eq limit, value_each, statements_each, List.filter_flatMap]

theorem filtered_noteEach (level : Level) (text : α → String) (as : List α) :
    Filtered (noteEach level text as) := by
  refine ⟨fun limit => ?_⟩
  have hrun : (noteEach level text as).run limit =
      ((), if limit.triggers level.rank then as.map fun a => ⟨level, text a⟩ else []) := rfl
  rw [hrun, statements_noteEach, List.filter_map]
  cases hpass : limit.triggers level.rank <;> simp [hpass, Message.passes, Function.comp_def]

/-! ## Errorless computations -/

/-- **The threshold filters and does nothing else, and no error is stated.** -/
structure Errorless (x : Logged α) : Prop extends Filtered x where
  level_ne : ∀ m ∈ x.statements, m.level ≠ .error

theorem errorless_pure (a : α) : Errorless (pure a : Logged α) where
  toFiltered := filtered_pure a
  level_ne := nofun

/-- **A step need be errorless on the value of the step before only.** -/
theorem errorless_bind (hx : Errorless x) (hf : Errorless (f x.value)) : Errorless (x >>= f) where
  toFiltered := filtered_bind hx.toFiltered hf.toFiltered
  level_ne m hm := by
    rw [statements_bind, List.mem_append] at hm
    exact hm.elim (hx.level_ne m) (hf.level_ne m)

/-- To return something after an errorless step states nothing more. -/
theorem Errorless.andReturn (hx : Errorless x) (g : α → β) :
    Errorless (x >>= fun a => pure (g a)) :=
  errorless_bind hx (errorless_pure _)

theorem errorless_note {level : Level} (h : level ≠ .error) (text : Thunk String) :
    Errorless (note level text) where
  toFiltered := filtered_note level text
  level_ne m hm := by
    rw [statements_note, List.mem_singleton] at hm
    rwa [hm]

theorem errorless_noteIf {condition : Bool} {level : Level}
    (h : condition = true → level ≠ .error) (text : Thunk String) :
    Errorless (noteIf condition level text) := by
  cases condition with
  | false => exact errorless_pure ()
  | true => exact errorless_note (h rfl) text

theorem errorless_each (hf : ∀ a, Errorless (f a)) (as : List α) : Errorless (each f as) where
  toFiltered := filtered_each (fun a => (hf a).toFiltered) as
  level_ne m hm := by
    rw [statements_each] at hm
    obtain ⟨a, -, ha⟩ := List.mem_flatMap.1 hm
    exact (hf a).level_ne m ha

theorem errorless_noteEach {level : Level} (h : level ≠ .error) (text : α → String)
    (as : List α) : Errorless (noteEach level text as) where
  toFiltered := filtered_noteEach level text as
  level_ne m hm := by
    rw [statements_noteEach] at hm
    obtain ⟨a, -, rfl⟩ := List.mem_map.1 hm
    exact h

/-- An errorless computation writes no error under any threshold. -/
theorem Errorless.messages (h : Errorless x) (limit : Level) :
    ∀ m ∈ x.messages limit, m.level ≠ .error := by
  intro m hm
  have hrun : x.messages limit = x.statements.filter (·.passes limit) :=
    congrArg Prod.snd (h.run_eq limit)
  rw [hrun] at hm
  exact h.level_ne m (List.mem_of_mem_filter hm)

end Logged

/-! ## One candidate -/

namespace Cost

theorem errorless_noteStop (stop : Option (Nat × SwapError)) : (noteStop stop).Errorless := by
  cases stop with
  | none => exact Logged.errorless_pure ()
  | some stop => exact Logged.errorless_note (by decide) _

theorem errorless_breakdownLogged (params : CostParameters) (amount : Amount) (r : Route) :
    (breakdownLogged params amount r).Errorless :=
  (errorless_noteStop _).andReturn _

end Cost

/-- The decision states an error on a zero amount only. -/
theorem errorless_assessLogged {amountIn : Amount} (h : amountIn ≠ 0)
    (grossOut totalCost minBps : Amount) :
    (assessLogged amountIn grossOut totalCost minBps).Errorless :=
  (Logged.errorless_noteIf (fun hzero => absurd (of_decide_eq_true hzero) h) _).andReturn _

theorem Search.errorless_bestLogged (params : CostParameters) (r : Route) (lo hi : Amount)
    (levels : UInt32) : (bestLogged params r lo hi levels).Errorless :=
  (Logged.errorless_noteIf (fun _ => by decide) _).andReturn _

namespace Candidate

variable {amount : Amount}

theorem errorless_amount (c : Constraints) (r : Route) (start : Token) :
    (Candidate.amount c r start).Errorless := by
  unfold Candidate.amount
  split
  · exact Search.errorless_bestLogged ..
  · exact Logged.errorless_pure _

theorem errorless_decide (h : amount ≠ 0) (c : Constraints) (r : Route) (start : Token)
    (e : Evaluation) : (decide mix c r start amount e).Errorless := by
  refine Logged.errorless_bind (Cost.errorless_breakdownLogged ..) ?_
  refine Logged.errorless_bind (errorless_assessLogged h ..) ?_
  split
  · exact Logged.errorless_pure _
  · split
    · split
      · exact Logged.errorless_pure _
      · exact (Logged.errorless_note (by decide) _).andReturn _
    · exact (Logged.errorless_note (by decide) _).andReturn _

theorem errorless_trade (h : amount ≠ 0) (mix : Mixing) (c : Constraints) (r : Route)
    (start : Token) : (trade mix c r start amount).Errorless := by
  unfold trade
  simp only
  split
  · exact (Logged.errorless_note (by decide) _).andReturn _
  · split
    · exact Logged.errorless_pure _
    · split
      · exact (Logged.errorless_note (by decide) _).andReturn _
      · exact errorless_decide h ..

theorem errorless_examine (mix : Mixing) (c : Constraints) (r : Route) :
    (examine mix c r).Errorless := by
  unfold examine
  split
  · exact (Logged.errorless_note (by decide) _).andReturn _
  · split
    · exact Logged.errorless_pure _
    · refine Logged.errorless_bind (errorless_amount ..) ?_
      split
      · exact (Logged.errorless_note (by decide) _).andReturn _
      · next hamount => exact errorless_trade hamount ..

/-- **No judgement states an error**: the examination states none, and comes to an outcome. -/
theorem errorless_judge (mix : Mixing) (c : Constraints) (r : Route) :
    (judge mix c r).Errorless := by
  refine Logged.errorless_bind (errorless_examine mix c r) ?_
  -- The error is stated for a defect, and the examination comes to none.
  obtain ⟨outcome, hvalue, -⟩ := judged_examine mix c r
  rw [hvalue]
  exact Logged.errorless_pure _

end Candidate

/-! ## The candidates -/

theorem Snapshot.errorless_discover (s : Snapshot) (start : Token) (leastHops mostHops : Nat)
    (wanted : UInt32) : (s.discover start leastHops mostHops wanted).Errorless := by
  refine Logged.errorless_bind (Logged.errorless_note (by decide) _) ?_
  refine Logged.errorless_bind (Logged.errorless_noteEach (by decide) ..) ?_
  refine Logged.errorless_bind (Logged.errorless_noteIf (fun _ => by decide) _) ?_
  exact (Logged.errorless_note (by decide) _).andReturn _

namespace Scan

theorem errorless_candidatesFrom (s : Snapshot) (c : Constraints) (t : Token) :
    (candidatesFrom s c t).Errorless := by
  unfold candidatesFrom
  split
  · exact (Logged.errorless_note (by decide) _).andReturn _
  · split
    · exact (Logged.errorless_note (by decide) _).andReturn _
    · exact (s.errorless_discover ..).andReturn _

theorem errorless_candidates (s : Snapshot) (c : Constraints) : (candidates s c).Errorless :=
  (Logged.errorless_each (errorless_candidatesFrom s c) _).andReturn _

theorem errorless_allCandidates (ctx : ScanContext) : (allCandidates ctx).Errorless := by
  unfold allCandidates
  split
  · exact Logged.errorless_pure _
  · refine Logged.errorless_bind (Logged.errorless_noteIf (fun _ => by decide) _) ?_
    exact Logged.errorless_bind (errorless_candidates ..) (Logged.errorless_pure _)

/-! ## The scan -/

theorem errorless_noteConstraints (clock : Clock) (ctx : ScanContext) :
    (noteConstraints clock ctx).Errorless := by
  refine Logged.errorless_bind (Logged.errorless_note (by decide) _) ?_
  refine Logged.errorless_bind (Logged.errorless_note (by decide) _) ?_
  refine Logged.errorless_bind (Logged.errorless_note (by decide) _) ?_
  refine Logged.errorless_bind (Logged.errorless_note (by decide) _) ?_
  refine Logged.errorless_bind (Logged.errorless_noteIf (fun _ => by decide) _) ?_
  refine Logged.errorless_bind (Logged.errorless_noteIf (fun _ => by decide) _) ?_
  refine Logged.errorless_bind (Logged.errorless_noteIf (fun _ => by decide) _) ?_
  refine Logged.errorless_bind (Logged.errorless_noteIf (fun _ => by decide) _) ?_
  split
  · exact Logged.errorless_note (by decide) _
  · exact Logged.errorless_pure _

variable (mix : Mixing) (schedule : Schedule) (ctx : ScanContext)

theorem errorless_task (clock : Clock) (i : Nat) (r : Route) :
    (task mix clock ctx i r).Errorless := by
  unfold task
  split
  · exact Logged.errorless_pure _
  · exact Candidate.errorless_judge ..

theorem errorless_outcomes (routes : List Route) :
    (outcomes mix schedule ctx routes).Errorless := by
  unfold outcomes
  simp only
  split
  · refine Logged.Errorless.andReturn (Logged.errorless_each (fun w => ?_) _) _
    exact (errorless_task ..).andReturn _
  · refine Logged.Errorless.andReturn (Logged.errorless_each (fun w => ?_) _) _
    exact errorless_task ..

theorem errorless_run : (run mix schedule ctx).Errorless := by
  refine Logged.errorless_bind (Logged.errorless_note (by decide) _) ?_
  refine Logged.errorless_bind (errorless_noteConstraints schedule.clock ctx) ?_
  refine Logged.errorless_bind (errorless_allCandidates ctx) ?_
  refine Logged.errorless_bind (Logged.errorless_noteIf (fun _ => by decide) _) ?_
  refine Logged.errorless_bind (errorless_outcomes ..) ?_
  refine Logged.errorless_bind (Logged.errorless_noteIf (fun _ => by decide) _) ?_
  refine Logged.errorless_bind (Logged.errorless_noteIf (fun _ => by decide) _) ?_
  exact (Logged.errorless_note (by decide) _).andReturn _

theorem filtered_withSchedule : (withSchedule mix schedule ctx).Filtered := by
  unfold withSchedule
  split
  · exact Logged.filtered_bind (Logged.filtered_note ..) (Logged.filtered_pure _)
  · split
    · exact Logged.filtered_bind (Logged.filtered_note ..) (Logged.filtered_pure _)
    · exact (errorless_run mix schedule ctx).toFiltered

/-! ## Other clocks -/

variable {mix schedule ctx} {schedule' : Schedule}

/-- The outcomes depend on what the checks find, and not on what the clock shows otherwise. -/
theorem outcomes_congr (h : schedule.ChecksAlike schedule' ctx.deadline) (routes : List Route) :
    outcomes mix schedule ctx routes = outcomes mix schedule' ctx routes := by
  have htask : task mix schedule.clock ctx = task mix schedule'.clock ctx := by
    funext i r
    rw [task, task, h.checks]
  simp only [outcomes, htask, h.order, h.checks]

/-- So does the report. -/
theorem value_withSchedule_congr (h : schedule.ChecksAlike schedule' ctx.deadline) :
    (withSchedule mix schedule ctx).value = (withSchedule mix schedule' ctx).value := by
  have hrun : (run mix schedule ctx).value = (run mix schedule' ctx).value := by
    simp only [run, Logged.value_bind, outcomes_congr h]
  unfold withSchedule
  split
  · rfl
  · split
    · rfl
    · exact hrun

/-- **Logging does not interfere, and filters exactly.** Under any two thresholds a scan gives the
same report: whatever the clock shows, so also where the deadline passes between two candidates,
and even if the clock of the other run shows something else, as long as the deadline is found
reached at the same checks. What a scan writes is what it writes under the lowest threshold, in
order, less the lines of a lower level. -/
theorem logging_does_not_interfere (mix : Mixing) (schedule : Schedule) (ctx : ScanContext)
    (limit : Level) :
    (∀ limit' schedule', schedule.ChecksAlike schedule' ctx.deadline →
      ((withSchedule mix schedule ctx).run limit).1 =
        ((withSchedule mix schedule' ctx).run limit').1) ∧
    (withSchedule mix schedule ctx).messages limit =
      ((withSchedule mix schedule ctx).messages .trace).filter fun m =>
        limit.rank ≤ m.level.rank := by
  have hfiltered := filtered_withSchedule mix schedule ctx
  refine ⟨fun limit' schedule' h => ?_, congrArg Prod.snd (hfiltered.run_eq limit)⟩
  rw [hfiltered.run_eq limit, (filtered_withSchedule mix schedule' ctx).run_eq limit',
    value_withSchedule_congr h]

end Scan

end PoolArbitrage
