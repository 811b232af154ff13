import Mathlib
import PoolArbitrage.Scan

/-!
# Slots and the tasks that fill them

Each candidate has a slot for its outcome and a task that writes it; a slot no task has written
reads as abandoned.

**Theorem (`Scan.getElem?_fillSlots`).** After the tasks of an order have run, the slot of a
candidate holds what its own task gives if the task was in the order, wherever and however often,
and is abandoned otherwise.

**Theorem (`Scan.getElem?_inTurn`).** After one thread has run the tasks in sequence, the slot of a
candidate holds what its own task gives if no turn up to its own came too late, and is abandoned
otherwise.

So whatever the order and the clock, a candidate is judged or abandoned, and which of them are
judged is told by the schedule and the deadline alone (`Scan.judges`).
**Theorem (`Scan.value_outcomes`).** The outcomes are the judgements of the candidates that are
judged, each in its place, and the others are abandoned.

A schedule is complete when it runs every task once. **Theorem (`Scan.value_outcomes_of_finds`).**
If the schedule is complete and the clock finds the same at each reading, then all candidates are
judged or none is.
-/

namespace PoolArbitrage

namespace Schedule

/-- Every task runs, and runs once. -/
def Complete (schedule : Schedule) : Prop := ∀ n, (schedule.order n).Perm (List.range n)

/-- The deadline has come at every reading of the clock (`past`), or at none. -/
def Finds (schedule : Schedule) (deadline : Deadline) (past : Bool) : Prop :=
  ∀ reading, deadline.reached (schedule.clock reading) = past

theorem complete_inOrder (clock : Clock) : (inOrder clock).Complete :=
  fun n => List.Perm.refl (List.range n)

/-- No clock finds a deadline reached that there is not. -/
theorem finds_none (schedule : Schedule) : schedule.Finds none false := fun _ => rfl

/-- The tasks in the order of the candidates, by a clock that stands still. -/
def still : Schedule := inOrder fun _ => 0

theorem complete_still : still.Complete := complete_inOrder _

end Schedule

namespace Scan

variable {mix : Mixing} {schedule : Schedule} {ctx : ScanContext} {routes : List Route}
variable {past : Bool}

/-! ## Writing slots -/

/-- The slots after some writes that agree with `f`. -/
theorem getElem?_writes {β : Type} {f : Nat → β} {writes : List (Nat × β)}
    (h : ∀ w ∈ writes, w.2 = f w.1) (slots : Array β) (i : Nat) :
    (writes.foldl (fun slots w => slots.setIfInBounds w.1 w.2) slots)[i]? =
      slots[i]?.map fun old => if i ∈ writes.map (·.1) then f i else old := by
  induction writes generalizing slots with
  | nil => simp
  | cons w writes ih =>
    obtain ⟨j, v⟩ := w
    have hv : v = f j := h (j, v) List.mem_cons_self
    rw [List.foldl_cons, ih fun w hw => h w (List.mem_cons_of_mem _ hw),
      Array.getElem?_setIfInBounds]
    by_cases hij : j = i
    · subst hij
      by_cases hj : j < slots.size
      · simp [hj, hv]
      · simp [hj]
    · have hmem : i ∈ ((j, v) :: writes).map (·.1) ↔ i ∈ writes.map (·.1) := by
        simp [Ne.symm hij]
      simp only [if_neg hij, hmem]

theorem mem_map_fst_picked {order : List Nat} {i : Nat} (hi : i < routes.length) :
    i ∈ (picked routes.toArray order).map (·.1) ↔ i ∈ order := by
  simp only [picked, List.mem_map, List.mem_filterMap, Option.map_eq_some_iff]
  constructor
  · intro h
    obtain ⟨-, ⟨j, hj, r, -, rfl⟩, rfl⟩ := h
    exact hj
  · intro h
    exact ⟨(i, routes[i]), ⟨i, h, routes[i], by simp [hi], rfl⟩, rfl⟩

/-- **Each slot holds what its own task gives, if the task has run.** -/
theorem getElem?_fillSlots (task : Nat → Route → Logged Outcome) (order : List Nat) (i : Nat) :
    (fillSlots task routes order).value[i]? =
      routes[i]?.map fun r => if i ∈ order then (task i r).value else .abandoned := by
  let given : Nat → Outcome := fun j => (routes[j]?.map fun r => (task j r).value).getD .abandoned
  have hgiven : ∀ w ∈ (picked routes.toArray order).map (fun w => (w.1, (task w.1 w.2).value)),
      w.2 = given w.1 := by
    simp only [picked, List.mem_map, List.mem_filterMap, Option.map_eq_some_iff]
    rintro - ⟨-, ⟨j, -, r, hr, rfl⟩, rfl⟩
    have hr' : routes[j]? = some r := by simpa using hr
    simp [given, hr']
  have hwrites := getElem?_writes hgiven (Array.replicate routes.length Outcome.abandoned) i
  simp only [fillSlots, Logged.value_bind, Logged.value_each, Logged.value_pure,
    List.size_toArray, Array.getElem?_toList]
  rw [hwrites, List.map_map]
  by_cases hi : i < routes.length
  · have hran : i ∈ (picked routes.toArray order).map (·.1) ↔ i ∈ order := mem_map_fst_picked hi
    simp [hi, given, Function.comp_def, hran]
  · simp [hi]

/-! ## One thread -/

/-- The candidates turned to are those up to the first turn that comes too late. -/
theorem getElem?_turned (tooLate : Nat → Bool) (routes : List Route) (i : Nat) :
    (turned tooLate routes)[i]? =
      if ∀ j ≤ i, tooLate j = false then routes[i]?.map fun r => (r, i) else none := by
  -- From a position on, the turns are counted from there.
  suffices h : ∀ k, ((routes.zipIdx k).takeWhile fun w => !tooLate w.2)[i]? =
      if ∀ j ≤ i, tooLate (k + j) = false then routes[i]?.map fun r => (r, k + i) else none by
    simpa only [turned, Nat.zero_add] using h 0
  induction routes generalizing i with
  | nil => simp
  | cons r rest ih =>
    intro k
    rw [List.zipIdx_cons, List.takeWhile_cons]
    by_cases hlate : tooLate k = true
    · have hturns : ¬ ∀ j ≤ i, tooLate (k + j) = false := by
        intro h
        simpa [hlate] using h 0 (Nat.zero_le i)
      rw [if_neg (by simp [hlate]), if_neg hturns]
      rfl
    · rw [if_pos (by simpa using hlate)]
      cases i with
      | zero => simpa using hlate
      | succ i =>
        have hturns : (∀ j ≤ i + 1, tooLate (k + j) = false) ↔
            ∀ j ≤ i, tooLate (k + 1 + j) = false := by
          constructor
          · intro h j hj
            rw [Nat.add_assoc, Nat.add_comm 1 j]
            exact h (j + 1) (Nat.succ_le_succ hj)
          · intro h j hj
            cases j with
            | zero => simpa using hlate
            | succ j =>
              rw [Nat.add_comm j 1, ← Nat.add_assoc]
              exact h j (Nat.le_of_succ_le_succ hj)
        simp only [List.getElem?_cons_succ, ih i (k + 1), hturns, Nat.add_assoc, Nat.add_comm 1 i]

/-- **Each slot holds what its own task gives, if no turn up to its own came too late.** -/
theorem getElem?_inTurn (tooLate : Nat → Bool) (task : Nat → Route → Logged Outcome) (i : Nat) :
    (inTurn tooLate task routes).value[i]? =
      routes[i]?.map fun r =>
        if ∀ j ≤ i, tooLate j = false then (task i r).value else .abandoned := by
  have hturned := getElem?_turned tooLate routes i
  simp only [inTurn, Logged.value_bind, Logged.value_each, Logged.value_pure, List.length_map,
    List.getElem?_append, List.getElem?_map]
  by_cases hi : i < (turned tooLate routes).length
  · rw [if_pos hi, hturned]
    by_cases hturns : ∀ j ≤ i, tooLate j = false
    · simp only [if_pos hturns, Option.map_map]
      rfl
    · rw [if_neg hturns, List.getElem?_eq_getElem hi] at hturned
      cases hturned
  · rw [if_neg hi]
    rw [List.getElem?_eq_none (Nat.le_of_not_lt hi)] at hturned
    have hle : (turned tooLate routes).length ≤ routes.length := by
      have hprefix : turned tooLate routes <+: routes.zipIdx := List.takeWhile_prefix _
      simpa using hprefix.length_le
    by_cases hroute : i < routes.length
    · have hturns : ¬ ∀ j ≤ i, tooLate j = false := by
        intro hturns
        rw [if_pos hturns, List.getElem?_eq_getElem hroute] at hturned
        cases hturned
      simp only [if_neg hturns, List.getElem?_eq_getElem hroute, Option.map_some]
      exact List.getElem?_replicate_of_lt (by omega)
    · rw [List.getElem?_eq_none (Nat.le_of_not_lt hroute), List.getElem?_eq_none (by simp; omega)]
      rfl

/-! ## Judged or abandoned -/

/-- Candidate `i` of so many is judged: its task runs, and finds that the deadline has not come.
One thread runs the tasks of those candidates whose turn and all turns before come in time. -/
def judges (schedule : Schedule) (ctx : ScanContext) (candidates i : Nat) : Bool :=
  !ctx.deadline.reached (schedule.clock (.task i)) &&
    if parallel ctx.constraints candidates then (schedule.order candidates).contains i
    else (List.range (i + 1)).all fun j => !ctx.deadline.reached (schedule.clock (.turn j))

/-- Past the deadline a task abandons its candidate; before it, it judges it. -/
theorem value_task (mix : Mixing) (clock : Clock) (ctx : ScanContext) (i : Nat) (r : Route) :
    (task mix clock ctx i r).value =
      if ctx.deadline.reached (clock (.task i)) then .abandoned
      else (Candidate.judge mix ctx.constraints r).value := by
  rw [task]
  split <;> rfl

/-- **Each candidate is judged or abandoned**, whatever the schedule. -/
theorem getElem?_outcomes (i : Nat) :
    (outcomes mix schedule ctx routes).value[i]? =
      routes[i]?.map fun r =>
        if judges schedule ctx routes.length i then (Candidate.judge mix ctx.constraints r).value
        else .abandoned := by
  have hsettled : ∀ (r : Route) (runs : Prop) [Decidable runs],
      (if runs then (task mix schedule.clock ctx i r).value else .abandoned) =
        if ctx.deadline.reached (schedule.clock (.task i)) = false ∧ runs then
          (Candidate.judge mix ctx.constraints r).value else .abandoned := by
    intro r runs _
    rw [value_task]
    cases ctx.deadline.reached (schedule.clock (.task i)) <;> simp
  unfold outcomes
  simp only
  split
  · next hparallel => simp [getElem?_fillSlots, hsettled, judges, hparallel]
  · next hone => simp [getElem?_inTurn, hsettled, judges, hone]

theorem value_outcomes :
    (outcomes mix schedule ctx routes).value = routes.zipIdx.map fun w =>
      if judges schedule ctx routes.length w.2 then
        (Candidate.judge mix ctx.constraints w.1).value
      else .abandoned := by
  refine List.ext_getElem? fun i => ?_
  rw [getElem?_outcomes, List.getElem?_map, List.getElem?_zipIdx, Option.map_map]
  simp [Function.comp_def]

/-- Whatever the schedule, there is one outcome for each candidate. -/
theorem length_outcomes : (outcomes mix schedule ctx routes).value.length = routes.length := by
  rw [value_outcomes, List.length_map, List.length_zipIdx]

/-! ## The candidates judged -/

/-- The candidates that are judged, in their order. -/
def judgedOf (schedule : Schedule) (ctx : ScanContext) (routes : List Route) : List Route :=
  (routes.zipIdx.filter fun w => judges schedule ctx routes.length w.2).map (·.1)

theorem judgedOf_sublist : (judgedOf schedule ctx routes).Sublist routes := by
  have hsub := (List.filter_sublist (l := routes.zipIdx)
    (p := fun w => judges schedule ctx routes.length w.2)).map (·.1)
  rwa [List.zipIdx_map_fst] at hsub

/-- What is read of the outcomes is read of the judgements, if there is nothing to read of a
candidate abandoned. -/
theorem filterMap_outcomes {β : Type} {f : Outcome → Option β} (hf : f .abandoned = none) :
    (outcomes mix schedule ctx routes).value.filterMap f =
      (judgedOf schedule ctx routes).filterMap fun r =>
        f (Candidate.judge mix ctx.constraints r).value := by
  rw [value_outcomes, judgedOf]
  induction routes.zipIdx with
  | nil => rfl
  | cons w ws ih =>
    rw [List.map_cons, List.filterMap_cons, ih, List.filter_cons]
    by_cases hw : judges schedule ctx routes.length w.2 = true
    · rw [if_pos hw, if_pos hw, List.map_cons, List.filterMap_cons]
    · rw [if_neg hw, if_neg hw, hf]

theorem countP_outcomes {p : Outcome → Bool} (hp : p .abandoned = false) :
    (outcomes mix schedule ctx routes).value.countP p =
      (judgedOf schedule ctx routes).countP fun r =>
        p (Candidate.judge mix ctx.constraints r).value := by
  have hlength : ∀ os : List Outcome, os.countP p = (os.filterMap (Option.guard p)).length := by
    intro os
    rw [List.countP_eq_length_filter, List.filterMap_eq_filter]
  have hnone : Option.guard p .abandoned = none := by simp [Option.guard, hp]
  have hjudged := List.countP_map (p := p)
    (f := fun r => (Candidate.judge mix ctx.constraints r).value)
    (l := judgedOf schedule ctx routes)
  rw [hlength, List.filterMap_map] at hjudged
  rw [hlength, filterMap_outcomes hnone]
  exact hjudged

/-- Whatever the schedule, an outcome is that of a candidate's judgement, or it is abandoned. -/
theorem mem_outcomes {o : Outcome} (h : o ∈ (outcomes mix schedule ctx routes).value) :
    o = .abandoned ∨ ∃ r ∈ routes, o = (Candidate.judge mix ctx.constraints r).value := by
  obtain ⟨i, hi⟩ := List.mem_iff_getElem?.1 h
  rw [getElem?_outcomes] at hi
  obtain ⟨r, hr, ho⟩ := Option.map_eq_some_iff.1 hi
  split at ho
  · exact .inr ⟨r, List.mem_of_getElem? hr, ho.symm⟩
  · exact .inl ho.symm

/-! ## All or none -/

theorem judges_of_finds (h : schedule.Complete) (hd : schedule.Finds ctx.deadline past) {n i : Nat}
    (hi : i < n) : judges schedule ctx n i = !past := by
  have hran : (schedule.order n).contains i = true :=
    List.contains_iff_mem.2 ((h n).mem_iff.2 (List.mem_range.2 hi))
  cases past <;> simp only [judges, hd _, hran] <;> simp

/-- **A complete schedule leaves each candidate to its judgement, or all are abandoned**, if the
deadline has come at no check or at every one. -/
theorem value_outcomes_of_finds (h : schedule.Complete) (hd : schedule.Finds ctx.deadline past) :
    (outcomes mix schedule ctx routes).value = routes.map fun r =>
      if past then .abandoned else (Candidate.judge mix ctx.constraints r).value := by
  refine List.ext_getElem? fun i => ?_
  rw [getElem?_outcomes, List.getElem?_map]
  by_cases hi : i < routes.length
  · rw [judges_of_finds h hd hi]
    cases past <;> rfl
  · rw [List.getElem?_eq_none (Nat.le_of_not_lt hi)]
    rfl

theorem judgedOf_of_finds (h : schedule.Complete) (hd : schedule.Finds ctx.deadline past) :
    judgedOf schedule ctx routes = if past then [] else routes := by
  have hall : ∀ w ∈ routes.zipIdx, judges schedule ctx routes.length w.2 = !past := by
    intro w hw
    exact judges_of_finds h hd (by simpa using List.snd_lt_of_mem_zipIdx hw)
  rw [judgedOf, List.filter_congr hall]
  cases past <;> simp

end Scan

end PoolArbitrage
