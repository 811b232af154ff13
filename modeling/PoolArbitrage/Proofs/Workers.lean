import Mathlib
import PoolArbitrage.Proofs.Comparison

/-!
# Candidates judged in parallel

With several threads the tasks of the candidates are posted to a pool of workers. Which task runs
when, and which ends first, is up to the workers. None of it shows in the report.

**Workers.** A step of the pool posts the next task, lets a free worker take one that waits, or ends
one that runs and writes its slot (`Scan.Workers.Step`). A task reads the context and its candidate,
which no step changes, and writes its own slot and no other.

**Invariant (`Scan.Workers.Sound`).** Each task is unposted, waiting, running or ended, and is so
once; and the slots are those written by the tasks that have ended, in the order they ended. So when
all have ended the order is a complete schedule, and any complete schedule is the order of some run
(`Scan.Workers.exists_ended_iff`). Each step takes a task one stage further, and while some task is
left a step can be taken: each run comes to its end (`Scan.Workers.exists_joined`).

**Sequence.** One thread goes through the candidates and breaks off where it finds the deadline
reached; the slots it does not come to stay abandoned (`Scan.inSequence`). Past the deadline the
tasks of a pool abandon their candidates one by one, which comes to the same.

**Theorem (`Scan.threads_do_not_show`).** In whatever order the tasks of a scan run and end, its
report is that of the scan on one thread, if the deadline has come at no check or at every one.
-/

namespace PoolArbitrage

/-- The context with its candidates judged one after the other. -/
def ScanContext.onOneThread (ctx : ScanContext) : ScanContext :=
  { ctx with constraints := { ctx.constraints with threads := 1 } }

namespace Scan

/-! ## Workers -/

/-- A pool at work: the tasks at each stage, by the positions of their candidates, and the slots.
The tasks that have ended stand in the order they ended. -/
structure Workers where
  unposted : List Nat
  waiting : List Nat
  running : List Nat
  ended : List Nat
  slots : List Outcome

namespace Workers

variable {threads : Nat} {task : Nat → Route → Logged Outcome} {routes : List Route}
variable {w w' : Workers}

/-- Before the first task is posted each slot reads as abandoned. -/
def idle (n : Nat) : Workers where
  unposted := List.range n
  waiting := []
  running := []
  ended := []
  slots := List.replicate n .abandoned

/-- One step of a pool of so many threads. -/
inductive Step (threads : Nat) (task : Nat → Route → Logged Outcome) (routes : List Route) :
    Workers → Workers → Prop
  | post {w : Workers} {i : Nat} {rest : List Nat} : w.unposted = i :: rest →
      Step threads task routes w { w with unposted := rest, waiting := w.waiting ++ [i] }
  | take {w : Workers} {i : Nat} : i ∈ w.waiting → w.running.length < threads →
      Step threads task routes w
        { w with waiting := w.waiting.erase i, running := i :: w.running }
  | finish {w : Workers} {i : Nat} {r : Route} : i ∈ w.running → routes[i]? = some r →
      Step threads task routes w
        { w with
          running := w.running.erase i
          ended := w.ended ++ [i]
          slots := w.slots.set i (task i r).value }

/-- The pool can come to this from the start. -/
def Reached (threads : Nat) (task : Nat → Route → Logged Outcome) (routes : List Route)
    (w : Workers) : Prop :=
  Relation.ReflTransGen (Step threads task routes) (idle routes.length) w

/-- All tasks have ended. -/
structure Joined (w : Workers) : Prop where
  unposted : w.unposted = []
  waiting : w.waiting = []
  running : w.running = []

/-! ## What every step keeps -/

/-- **Each task is at one stage, and the slots are those of the tasks that have ended.** -/
structure Sound (task : Nat → Route → Logged Outcome) (routes : List Route) (w : Workers) :
    Prop where
  once : (w.unposted ++ w.waiting ++ w.running ++ w.ended).Perm (List.range routes.length)
  slots : w.slots = (fillSlots task routes w.ended).value

theorem value_fillSlots_nil (task : Nat → Route → Logged Outcome) (routes : List Route) :
    (fillSlots task routes []).value = List.replicate routes.length .abandoned := by
  simp [fillSlots, picked]

/-- One more task writes its own slot. -/
theorem value_fillSlots_concat {i : Nat} {r : Route} (hr : routes[i]? = some r)
    (order : List Nat) :
    (fillSlots task routes (order ++ [i])).value =
      (fillSlots task routes order).value.set i (task i r).value := by
  simp [fillSlots, picked, hr, List.filterMap_append]

theorem sound_idle (task : Nat → Route → Logged Outcome) (routes : List Route) :
    Sound task routes (idle routes.length) where
  once := by simp [idle]
  slots := (value_fillSlots_nil task routes).symm

/-- **Every step keeps the invariant.** -/
theorem Sound.step (hsound : Sound task routes w) (h : Step threads task routes w w') :
    Sound task routes w' := by
  obtain ⟨honce, hslots⟩ := hsound
  -- A task moves to the next stage, so each is counted over all stages as often as before.
  cases h with
  | post hpost =>
    refine ⟨List.Perm.trans ?_ honce, hslots⟩
    rw [hpost]
    refine List.perm_iff_count.2 fun j => ?_
    simp only [List.count_append, List.count_cons, List.count_nil]
    omega
  | take hi _ =>
    refine ⟨List.Perm.trans ?_ honce, hslots⟩
    have hperm := List.perm_iff_count.1 (List.perm_cons_erase hi)
    refine List.perm_iff_count.2 fun j => ?_
    have hj := hperm j
    simp only [List.count_append, List.count_cons] at hj ⊢
    omega
  | finish hi hr =>
    refine ⟨List.Perm.trans ?_ honce, ?_⟩
    · have hperm := List.perm_iff_count.1 (List.perm_cons_erase hi)
      refine List.perm_iff_count.2 fun j => ?_
      have hj := hperm j
      simp only [List.count_append, List.count_cons, List.count_nil] at hj ⊢
      omega
    · rw [hslots, value_fillSlots_concat hr]

theorem sound_of_reached (h : Reached threads task routes w) : Sound task routes w := by
  induction h with
  | refl => exact sound_idle task routes
  | tail _ hstep ih => exact ih.step hstep

/-- When all tasks have ended, each has ended once. -/
theorem Sound.perm_ended (h : Sound task routes w) (hjoined : w.Joined) :
    w.ended.Perm (List.range routes.length) := by
  have honce := h.once
  rwa [hjoined.unposted, hjoined.waiting, hjoined.running] at honce

/-- **A pool whose tasks have all ended leaves in each slot what its own task gives.** -/
theorem slots_of_joined (h : Reached threads task routes w) (hjoined : w.Joined) :
    w.slots = routes.zipIdx.map fun c => (task c.2 c.1).value := by
  have hsound := sound_of_reached h
  rw [hsound.slots]
  refine List.ext_getElem? fun i => ?_
  rw [getElem?_fillSlots, List.getElem?_map, List.getElem?_zipIdx, Option.map_map]
  by_cases hi : i < routes.length
  · have hended : i ∈ w.ended := (hsound.perm_ended hjoined).mem_iff.2 (List.mem_range.2 hi)
    simp only [if_pos hended, Nat.zero_add]
    rfl
  · simp [hi]

/-! ## Every run comes to its end -/

/-- How many stages the tasks have still to go through. -/
def left (w : Workers) : Nat := 3 * w.unposted.length + 2 * w.waiting.length + w.running.length

theorem left_step (h : Step threads task routes w w') : w'.left + 1 = w.left := by
  cases h with
  | post hpost =>
    simp only [left, hpost, List.length_append, List.length_cons, List.length_nil]
    omega
  | take hi _ =>
    have hpos := List.length_pos_of_mem hi
    simp only [left, List.length_erase_of_mem hi, List.length_cons]
    omega
  | finish hi _ =>
    have hpos := List.length_pos_of_mem hi
    simp only [left, List.length_erase_of_mem hi]
    omega

/-- While some task is left a step can be taken. -/
theorem exists_step (hthreads : 0 < threads) (hsound : Sound task routes w) (h : ¬ w.Joined) :
    ∃ w', Step threads task routes w w' := by
  cases hunposted : w.unposted with
  | cons i rest => exact ⟨_, .post hunposted⟩
  | nil =>
    cases hrunning : w.running with
    | cons i rest =>
      have hi : i ∈ w.running := hrunning ▸ List.mem_cons_self
      have hmem : i ∈ List.range routes.length := hsound.once.subset (by simp [hi])
      exact ⟨_, .finish hi (List.getElem?_eq_getElem (List.mem_range.1 hmem))⟩
    | nil =>
      cases hwaiting : w.waiting with
      | cons i rest =>
        have hi : i ∈ w.waiting := hwaiting ▸ List.mem_cons_self
        exact ⟨_, .take hi (by rw [hrunning]; exact hthreads)⟩
      | nil => exact absurd ⟨hunposted, hwaiting, hrunning⟩ h

/-- **Wherever a run has come, it can go on to where all tasks have ended.** -/
theorem exists_joined (hthreads : 0 < threads) (h : Reached threads task routes w) :
    ∃ w', Relation.ReflTransGen (Step threads task routes) w w' ∧ w'.Joined := by
  -- On the stages left to go through: no step adds any, and a pool not joined has a step to take.
  induction hleft : w.left using Nat.strong_induction_on generalizing w with
  | h n ih =>
    by_cases hjoined : w.Joined
    · exact ⟨w, .refl, hjoined⟩
    · obtain ⟨w', hstep⟩ := exists_step hthreads (sound_of_reached h) hjoined
      have hfewer := left_step hstep
      obtain ⟨w'', hrun, hend⟩ := ih w'.left (by omega) (h.tail hstep) rfl
      exact ⟨w'', .head hstep hrun, hend⟩

/-! ## Every order is the order of some run -/

/-- Posting goes on whatever the workers do. -/
theorem reaches_posted (rest : List Nat) (h : w.unposted = rest) :
    Relation.ReflTransGen (Step threads task routes) w
      { w with unposted := [], waiting := w.waiting ++ rest } := by
  induction rest generalizing w with
  | nil =>
    have hw : { w with unposted := [], waiting := w.waiting ++ [] } = w := by
      rw [List.append_nil, ← h]
    rw [hw]
  | cons i rest ih =>
    have hrun := ih (w := { w with unposted := rest, waiting := w.waiting ++ [i] }) rfl
    simp only [List.append_assoc, List.singleton_append] at hrun
    exact .head (.post h) hrun

/-- Workers can run the tasks that wait one after the other, in any order. -/
theorem exists_reaches_ended (hthreads : 0 < threads) (order : List Nat)
    (hwaiting : w.waiting.Perm order) (hrunning : w.running = [])
    (hrange : ∀ i ∈ order, i < routes.length) :
    ∃ w', Relation.ReflTransGen (Step threads task routes) w w' ∧ w'.unposted = w.unposted ∧
      w'.waiting = [] ∧ w'.running = [] ∧ w'.ended = w.ended ++ order := by
  induction order generalizing w with
  | nil => exact ⟨w, .refl, rfl, hwaiting.eq_nil, hrunning, (List.append_nil _).symm⟩
  | cons i order ih =>
    have hi : i ∈ w.waiting := hwaiting.mem_iff.2 List.mem_cons_self
    obtain ⟨r, hr⟩ : ∃ r, routes[i]? = some r :=
      ⟨_, List.getElem?_eq_getElem (hrange i List.mem_cons_self)⟩
    let taken : Workers := { w with waiting := w.waiting.erase i, running := i :: w.running }
    let done : Workers :=
      { taken with
        running := taken.running.erase i
        ended := taken.ended ++ [i]
        slots := taken.slots.set i (task i r).value }
    have htake : Step threads task routes w taken := .take hi (by rw [hrunning]; exact hthreads)
    have hfinish : Step threads task routes taken done := .finish List.mem_cons_self hr
    have hrest : done.waiting.Perm order := by
      have := hwaiting.erase i
      rwa [List.erase_cons_head] at this
    have hidle : done.running = [] := (List.erase_cons_head ..).trans hrunning
    obtain ⟨w', hrun, hunposted', hwaiting', hrunning', hended⟩ := ih hrest hidle fun j hj =>
      hrange j (List.mem_cons_of_mem _ hj)
    exact ⟨w', .head htake (.head hfinish hrun), hunposted', hwaiting', hrunning',
      hended.trans (List.append_assoc ..)⟩

/-- **The orders in which runs end their tasks are those in which each task stands once.** -/
theorem exists_ended_iff (hthreads : 0 < threads) (order : List Nat) :
    (∃ w, Reached threads task routes w ∧ w.Joined ∧ w.ended = order) ↔
      order.Perm (List.range routes.length) := by
  constructor
  · intro h
    obtain ⟨w, hreached, hjoined, rfl⟩ := h
    exact (sound_of_reached hreached).perm_ended hjoined
  · intro h
    -- All tasks are posted first; then one worker takes and ends them in the order wanted.
    let posted : Workers :=
      { idle routes.length with unposted := [], waiting := [] ++ List.range routes.length }
    have hposted : Reached threads task routes posted := reaches_posted (List.range _) rfl
    have hwaiting : posted.waiting.Perm order := h.symm
    obtain ⟨w, hrun, hunposted, hwaiting, hrunning, hended⟩ := exists_reaches_ended hthreads order
      hwaiting rfl fun i hi => List.mem_range.1 (h.mem_iff.1 hi)
    exact ⟨w, hposted.trans hrun, ⟨hunposted, hwaiting, hrunning⟩, hended⟩

end Workers

variable {mix : Mixing} {ctx : ScanContext} {past : Bool}

/-! ## One thread -/

/-- One thread goes through the candidates in order, counting from a position. Where it finds the
deadline reached it breaks off, and the slots it has not come to stay abandoned. -/
def inSequence (mix : Mixing) (clock : Clock) (ctx : ScanContext) : Nat → List Route → List Outcome
  | _, [] => []
  | i, r :: rest =>
    if ctx.deadline.reached (clock (.turn i)) then
      List.replicate (rest.length + 1) .abandoned
    else (task mix clock ctx i r).value :: inSequence mix clock ctx (i + 1) rest

/-- **The candidates turned to, and abandoned slots for the others, are the sequence.** -/
theorem value_inTurn_eq_inSequence (mix : Mixing) (clock : Clock) (ctx : ScanContext)
    (routes : List Route) :
    (inTurn (fun i => ctx.deadline.reached (clock (.turn i))) (task mix clock ctx) routes).value =
      inSequence mix clock ctx 0 routes := by
  -- On the routes, each of which moves the position on.
  suffices h : ∀ i, let turned := (routes.zipIdx i).takeWhile fun w =>
        !ctx.deadline.reached (clock (.turn w.2))
      (turned.map fun w => (task mix clock ctx w.2 w.1).value) ++
        List.replicate (routes.length - turned.length) .abandoned =
          inSequence mix clock ctx i routes by
    simpa [inTurn, turned] using h 0
  induction routes with
  | nil => exact fun _ => rfl
  | cons r rest ih =>
    intro i
    have hrest := ih (i + 1)
    simp only at hrest
    simp only [List.zipIdx_cons, List.takeWhile_cons, inSequence]
    by_cases hlate : ctx.deadline.reached (clock (.turn i)) = true
    · simp [hlate]
    · simp [hlate, ← hrest]

/-! ## The report -/

/-- What a scan reports when its slots hold these outcomes. -/
def reportOf (ctx : ScanContext) (slots : List Outcome) : Report :=
  { (Report.ofOutcomes slots).ranked ctx.constraints.matchLimit.toNat with
    diagnostics := (allCandidates ctx).value.2 ++ late slots }

/-- The number of threads has no part in finding the candidates. -/
theorem sameCandidates_onOneThread (hthreads : 0 < ctx.constraints.threads) :
    SameCandidates ctx ctx.onOneThread where
  fault := by
    have hsome : ¬ ctx.constraints.threads < 1 := by
      rw [UInt32.lt_iff_toNat_lt] at hthreads ⊢
      exact Nat.not_lt.2 hthreads
    simp only [Constraints.fault?, ScanContext.onOneThread, if_neg hsome, UInt32.lt_irrefl,
      if_false]
    rfl
  snapshot := rfl
  routes := rfl
  candidates _ := rfl
  limit := rfl
  deadline := rfl

/-- The scan on one thread reports what its candidates come to in sequence, whatever the clock. -/
theorem value_scan_onOneThread (mix : Mixing) (clock : Clock)
    (hthreads : 0 < ctx.constraints.threads) (h : Starts ctx) :
    (scan mix clock ctx.onOneThread).value =
      reportOf ctx (inSequence mix clock ctx 0 (examined ctx)) := by
  have hsame := sameCandidates_onOneThread hthreads
  have hresults : results mix (.inOrder clock) ctx.onOneThread =
      inSequence mix clock ctx 0 (examined ctx) := by
    rw [← value_inTurn_eq_inSequence, hsame.examined]
    rfl
  rw [scan, value_withSchedule_eq _ _ (hsame.starts h), hresults, ← hsame.allCandidates]
  rfl

/-- A scan whose tasks are run by workers reports what they leave in the slots. -/
theorem value_withSchedule_of_workers {threads : Nat} {clock : Clock} {w : Workers}
    (h : Starts ctx) (hparallel : parallel ctx.constraints (examined ctx).length = true)
    (hw : Workers.Reached threads (task mix clock ctx) (examined ctx) w) :
    (withSchedule mix { order := fun _ => w.ended, clock } ctx).value = reportOf ctx w.slots := by
  have hresults : results mix { order := fun _ => w.ended, clock } ctx = w.slots := by
    rw [(Workers.sound_of_reached hw).slots, results, outcomes]
    simp only [if_pos hparallel]
  rw [value_withSchedule_eq _ _ h, hresults]
  rfl

theorem withSchedule_eq_onOneThread {schedule : Schedule} {clock : Clock}
    (hthreads : 0 < ctx.constraints.threads) (h : schedule.Complete)
    (hd : schedule.Finds ctx.deadline past)
    (hd' : (Schedule.inOrder clock).Finds ctx.deadline past) :
    (withSchedule mix schedule ctx).value = (scan mix clock ctx.onOneThread).value := by
  have hsame := sameCandidates_onOneThread hthreads
  by_cases hstarts : Starts ctx
  · have hresults :
        results mix schedule ctx = results mix (.inOrder clock) ctx.onOneThread := by
      rw [← List.forall₂_eq_eq_eq]
      exact hsame.forall₂_results h (Schedule.complete_inOrder clock) hd hd' rfl fun _ => rfl
    rw [scan, value_withSchedule_eq _ _ hstarts, value_withSchedule_eq _ _ (hsame.starts hstarts),
      hresults, hsame.allCandidates]
    rfl
  · obtain ⟨diagnostic, hrefused, hrefused'⟩ :=
      hsame.refused mix schedule (.inOrder clock) hstarts
    rw [hrefused, scan, hrefused']

/-- Workers that find the deadline reached at no check, or at every one, leave in the slots what the
sequence comes to. -/
theorem slots_eq_inSequence {threads : Nat} {clock clock' : Clock} {w : Workers}
    (hd : (Schedule.inOrder clock).Finds ctx.deadline past)
    (hd' : (Schedule.inOrder clock').Finds ctx.deadline past)
    (hw : Workers.Reached threads (task mix clock ctx) (examined ctx) w) (hjoined : w.Joined) :
    w.slots = inSequence mix clock' ctx 0 (examined ctx) := by
  rw [Workers.slots_of_joined hw hjoined, ← value_inTurn_eq_inSequence]
  refine List.ext_getElem? fun i => ?_
  rw [getElem?_inTurn, List.getElem?_map, List.getElem?_zipIdx, Option.map_map]
  refine Option.map_congr fun r _ => ?_
  have hcheck : ∀ reading, ctx.deadline.reached (clock reading) = past := hd
  have hcheck' : ∀ reading, ctx.deadline.reached (clock' reading) = past := hd'
  simp only [Function.comp_apply, Nat.zero_add, value_task, hcheck, hcheck']
  cases past <;> simp

/-- **Threads do not show.** In whatever order the tasks run and end, the report is that of the scan
on one thread, if the deadline has come at no check or at every one: the candidates in sequence,
broken off past the deadline. The workers come to the end of every run, and what they leave in the
slots is reported, whatever the clock. -/
theorem threads_do_not_show (mix : Mixing) (hthreads : 0 < ctx.constraints.threads) :
    (∀ (schedule : Schedule) (clock : Clock) (past : Bool), schedule.Complete →
      schedule.Finds ctx.deadline past → (Schedule.inOrder clock).Finds ctx.deadline past →
      (withSchedule mix schedule ctx).value = (scan mix clock ctx.onOneThread).value) ∧
    (Starts ctx → ∀ clock : Clock,
      (scan mix clock ctx.onOneThread).value =
        reportOf ctx (inSequence mix clock ctx 0 (examined ctx)) ∧
      ∀ w, Workers.Reached ctx.constraints.threads.toNat (task mix clock ctx) (examined ctx) w →
        (∃ w', Relation.ReflTransGen
            (Workers.Step ctx.constraints.threads.toNat (task mix clock ctx) (examined ctx)) w w' ∧
          w'.Joined) ∧
        (parallel ctx.constraints (examined ctx).length = true →
          (withSchedule mix { order := fun _ => w.ended, clock } ctx).value =
            reportOf ctx w.slots) ∧
        ∀ (clock' : Clock) (past : Bool), w.Joined →
          (Schedule.inOrder clock).Finds ctx.deadline past →
          (Schedule.inOrder clock').Finds ctx.deadline past →
          reportOf ctx w.slots = (scan mix clock' ctx.onOneThread).value) := by
  refine ⟨fun schedule clock past h hd hd' => ?_, fun hstarts clock => ⟨?_, fun w hw => ?_⟩⟩
  · exact withSchedule_eq_onOneThread hthreads h hd hd'
  · exact value_scan_onOneThread mix clock hthreads hstarts
  · refine ⟨?_, fun hparallel => ?_, fun clock' past hjoined hd hd' => ?_⟩
    · exact Workers.exists_joined (UInt32.lt_iff_toNat_lt.1 hthreads) hw
    · exact value_withSchedule_of_workers hstarts hparallel hw
    · rw [value_scan_onOneThread mix clock' hthreads hstarts, slots_eq_inSequence hd hd' hw hjoined]

/-- The scan of the gap with four threads. -/
def gapOnFourThreads : ScanContext :=
  { gapContext with constraints := { gapContext.constraints with threads := 4 } }

/-- Over the gap the tasks may end in reverse order. The report is that of one thread. -/
theorem threads_do_not_show_over_gap :
    let clock : Clock := fun _ => 0
    let one := (scan rolling clock gapOnFourThreads.onOneThread).value
    (withSchedule rolling { order := fun n => (List.range n).reverse, clock }
      gapOnFourThreads).value = one ∧
    ∃ w, Workers.Reached 4 (task rolling clock gapOnFourThreads) (examined gapOnFourThreads) w ∧
      w.Joined ∧ w.ended = [1, 0] ∧ reportOf gapOnFourThreads w.slots = one := by
  intro clock one
  have hthreads : 0 < gapOnFourThreads.constraints.threads := by decide
  have hstarts : Starts gapOnFourThreads := ⟨by decide +kernel, .inl rfl⟩
  have hlength : (examined gapOnFourThreads).length = 2 := by decide +kernel
  have hd : (Schedule.inOrder clock).Finds gapOnFourThreads.deadline false := Schedule.finds_none _
  obtain ⟨hschedules, hruns⟩ := threads_do_not_show rolling hthreads
  have horder : [1, 0].Perm (List.range (examined gapOnFourThreads).length) := by
    rw [hlength]
    decide
  have hrun : ∃ w, Workers.Reached 4 (task rolling clock gapOnFourThreads)
      (examined gapOnFourThreads) w ∧ w.Joined ∧ w.ended = [1, 0] :=
    (Workers.exists_ended_iff (by decide) [1, 0]).2 horder
  obtain ⟨w, hreached, hjoined, hended⟩ := hrun
  obtain ⟨-, -, hone⟩ := (hruns hstarts clock).2 w hreached
  exact ⟨hschedules _ clock false (fun n => List.reverse_perm _) (Schedule.finds_none _) hd, w,
    hreached, hjoined, hended, hone clock false hjoined hd hd⟩

end Scan

end PoolArbitrage
