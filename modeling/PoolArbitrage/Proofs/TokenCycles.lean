import Mathlib
import PoolArbitrage.Proofs.Guard
import PoolArbitrage.Proofs.Judgement

/-!
# The cycles the guard allows

The guard looks at a route hop by hop. What it accepts can be said of the route as a whole: the
tokens bought are the tokens sold, turned by one (`Route.cyclic_iff`). That is the same as each hop
buying what the next one sells, and the last one what the first sells (`Route.linked_iff`).

**Counting.** Visits are counted before it is known whether the hops follow on one another. For a
route that is accepted this makes no difference: it is a cycle, and a cycle visits a token as often
as it sells it, the start once more.

**Simple cycles.** Where no token may repeat, the tokens sold are all different, and the hops are
the edges of the ring they make (`Route.allowedCycle_one_iff`).

**Theorem (`Route.guard_accepts_the_allowed_cycles`).** The guard accepts the allowed cycles and no
other route, and raises any other route for the kind of fault it reports.
-/

namespace PoolArbitrage

namespace Route

variable {r : Route} {repeats : UInt32} {h : Hop} {t : Token}

/-! ## Turned by one -/

/-- If the hops buy what the later ones sell, and the last one some token, they follow on one
another and end with that token. -/
theorem chained_of_map_buys (hbuys : (h :: r).map (·.buys) = r.map (·.sells) ++ [t]) :
    Chained (h :: r) ∧ final? (h :: r) = some t := by
  induction r generalizing h with
  | nil =>
    have hlast : h.buys = t := List.singleton_inj.1 hbuys
    exact ⟨List.isChain_singleton _, congrArg some hlast⟩
  | cons g r ih =>
    obtain ⟨hlink, hrest⟩ := List.cons_eq_cons.1 hbuys
    obtain ⟨hchained, hfinal⟩ := ih hrest
    refine ⟨List.isChain_cons_cons.2 ⟨hlink, hchained⟩, ?_⟩
    rwa [final?, List.getLast?_cons_cons]

/-- A route comes back to its start where its last hop buys what the first one sells. -/
theorem closed_cons_iff : closed (h :: r) = true ↔ final? (h :: r) = some h.sells := by
  have hstart : start? (h :: r) = some h.sells := rfl
  rw [closed, hstart]
  cases final? (h :: r) with
  | none => simp
  | some t =>
    show (h.sells == t) = true ↔ some t = some h.sells
    rw [beq_iff_eq, Option.some_inj]
    exact eq_comm

/-- **A cycle buys what it sells, turned by one.** -/
theorem cyclic_iff (hr : r ≠ []) : r.Cyclic ↔ r.map (·.buys) = (r.map (·.sells)).rotate 1 := by
  obtain ⟨h, r, rfl⟩ := List.exists_cons_of_ne_nil hr
  have hturned : ((h :: r).map (·.sells)).rotate 1 = r.map (·.sells) ++ [h.sells] := by
    rw [List.map_cons, List.rotate_cons_succ, List.rotate_zero]
  rw [hturned]
  constructor
  · intro hcyclic
    exact map_buys_of_chained hcyclic.chained (closed_cons_iff.1 hcyclic.closed)
  · intro hbuys
    obtain ⟨hchained, hfinal⟩ := chained_of_map_buys hbuys
    exact ⟨hchained, closed_cons_iff.2 hfinal⟩

/-- Each hop buys what the next one sells, and the last one what the first sells. -/
def Linked (r : Route) : Prop :=
  ∀ i < r.length, r[i]?.map (·.buys) = r[(i + 1) % r.length]?.map (·.sells)

/-- The same hop by hop. -/
theorem linked_iff : r.Linked ↔ r.map (·.buys) = (r.map (·.sells)).rotate 1 := by
  rw [List.ext_getElem?_iff']
  simp only [List.length_map, List.length_rotate, max_self]
  refine forall₂_congr fun i hi => ?_
  rw [List.getElem?_rotate (by rwa [List.length_map])]
  simp only [List.getElem?_map, List.length_map]

theorem cyclic_iff_linked (hleast : minHops ≤ r.length) : r.Cyclic ↔ r.Linked := by
  have hne : r ≠ [] := by
    rintro rfl
    exact absurd hleast (by decide)
  rw [cyclic_iff hne, linked_iff]

/-! ## Allowed cycles -/

/-- **An allowed cycle**: two to four hops in a ring, no token sold by more than so many of them. -/
structure AllowedCycle (r : Route) (k : Nat) : Prop where
  length : r.length = 2 ∨ r.length = 3 ∨ r.length = 4
  linked : r.Linked
  sold : ∀ t, (r.map (·.sells)).count t ≤ k

theorem length_allowed_iff :
    r.length = 2 ∨ r.length = 3 ∨ r.length = 4 ↔ minHops ≤ r.length ∧ r.length ≤ maxHops := by
  unfold minHops maxHops
  omega

/-- **The guard accepts just the allowed cycles**, if the allowance after the given one is a word.
-/
theorem check_eq_ok_iff (hrepeats : repeats.toNat + 1 < UInt32.size) :
    r.check repeats = .ok ↔ r.AllowedCycle repeats.toNat := by
  rw [check_eq_ok, fault?_eq_none_iff]
  -- What the count of visits says of the tokens sold it says of cycles only, so these come first.
  constructor
  · rintro ⟨hleast, hmost, hvisits, hchained, hclosed⟩
    have hcyclic : r.Cyclic := ⟨hchained, hclosed⟩
    exact {
      length := length_allowed_iff.2 ⟨hleast, hmost⟩
      linked := (cyclic_iff_linked hleast).1 hcyclic
      sold := (hcyclic.overvisited_eq_nil_iff hrepeats).1 hvisits }
  · rintro ⟨hlength, hlinked, hsold⟩
    obtain ⟨hleast, hmost⟩ := length_allowed_iff.1 hlength
    have hcyclic : r.Cyclic := (cyclic_iff_linked hleast).2 hlinked
    exact ⟨hleast, hmost, (hcyclic.overvisited_eq_nil_iff hrepeats).2 hsold, hcyclic.chained,
      hcyclic.closed⟩

/-- **A simple cycle**: two to four tokens, all different, each sold for the next one and the last
for the first. -/
def SimpleCycle (r : Route) : Prop :=
  ∃ ts : List Token, ts.Nodup ∧ 2 ≤ ts.length ∧ ts.length ≤ 4 ∧
    r.map (fun h => (h.sells, h.buys)) = ts.zip (ts.rotate 1)

/-- **Where no token may repeat the allowed cycles are the simple ones.** -/
theorem allowedCycle_one_iff : r.AllowedCycle 1 ↔ r.SimpleCycle := by
  constructor
  · intro hr
    obtain ⟨hleast, hmost⟩ := length_allowed_iff.1 hr.length
    refine ⟨r.map (·.sells), List.nodup_iff_count_le_one.2 hr.sold, ?_, ?_, ?_⟩
    · rwa [List.length_map]
    · rwa [List.length_map]
    · rw [← linked_iff.1 hr.linked, List.zip_map']
  · rintro ⟨ts, hnodup, hleast, hmost, hedges⟩
    have hturned : (ts.rotate 1).length = ts.length := List.length_rotate ..
    have hsells : r.map (·.sells) = ts := by
      have hfirst := congrArg (List.map Prod.fst) hedges
      rwa [List.map_map, List.map_fst_zip hturned.ge] at hfirst
    have hbuys : r.map (·.buys) = ts.rotate 1 := by
      have hsecond := congrArg (List.map Prod.snd) hedges
      rwa [List.map_map, List.map_snd_zip hturned.le] at hsecond
    have hlength : r.length = ts.length := by rw [← hsells, List.length_map]
    refine ⟨length_allowed_iff.2 ?_, linked_iff.2 ?_, ?_⟩
    · rw [hlength]
      exact ⟨hleast, hmost⟩
    · rw [hbuys, hsells]
    · rw [hsells]
      exact List.nodup_iff_count_le_one.1 hnodup

/-! ## What is raised -/

/-- A route is raised for its first fault. -/
theorem validate_eq_error_iff {e : Violation} :
    r.validate repeats = .error e ↔
      ∃ f, r.fault? repeats = some f ∧ e = ⟨f.kind, r.faultMessage repeats f⟩ := by
  rw [validate]
  cases r.fault? repeats with
  | none => simp
  | some f => simp [eq_comm]

theorem validate_eq_ok_iff : r.validate repeats = .ok () ↔ r.check repeats = .ok := by
  rw [check_eq_ok, validate]
  cases r.fault? repeats with
  | none => simp
  | some f => simp

/-- What is raised is of the kind reported. -/
theorem kind_of_validate {e : Violation} (he : r.validate repeats = .error e) :
    e.kind = r.check repeats := by
  obtain ⟨f, hfault, rfl⟩ := validate_eq_error_iff.1 he
  rw [check, hfault]

/-- **The guard accepts exactly the allowed cycles.** Of routes of any length and over any tokens
these are the ones whose two to four hops form a ring in which no token is sold more often than
allowed; where none may repeat, the simple cycles. A route is raised if and only if it is not
accepted, for the kind of fault reported. -/
theorem guard_accepts_the_allowed_cycles (r : Route) (repeats : UInt32)
    (h : repeats.toNat + 1 < UInt32.size) :
    (r.check repeats = .ok ↔ r.AllowedCycle repeats.toNat) ∧
    (r.check 1 = .ok ↔ r.SimpleCycle) ∧
    (r.validate repeats = .ok () ↔ r.check repeats = .ok) ∧
    ∀ e, r.validate repeats = .error e → e.kind = r.check repeats := by
  have hone : r.check 1 = .ok ↔ r.AllowedCycle 1 := check_eq_ok_iff (by decide)
  exact ⟨check_eq_ok_iff h, hone.trans allowedCycle_one_iff, validate_eq_ok_iff,
    fun e => kind_of_validate⟩

/-- A ring that crosses its start halfway: it is allowed where a token may be sold twice, and raised
as circular where it may not. -/
theorem ring_over_its_start_allowed_twice :
    let r : Route := [⟨"SOL", "USDC", {}, "", ""⟩, ⟨"USDC", "SOL", {}, "", ""⟩,
      ⟨"SOL", "RAY", {}, "", ""⟩, ⟨"RAY", "SOL", {}, "", ""⟩]
    r.AllowedCycle 2 ∧ r.validate 2 = .ok () ∧ ¬ r.SimpleCycle ∧
      ∃ e, r.validate 1 = .error e ∧ e.kind = .circular := by
  intro r
  obtain ⟨hallowed, hsimple, haccepted, -⟩ := guard_accepts_the_allowed_cycles r 2 (by decide)
  have hraised := (guard_accepts_the_allowed_cycles r 1 (by decide)).2.2.2
  have htwice : r.check 2 = .ok := by decide +kernel
  have honce : r.check 1 = .circular := by decide +kernel
  refine ⟨hallowed.1 htwice, haccepted.2 htwice, ?_, ?_⟩
  · rw [← hsimple, honce]
    decide
  · cases hvalidate : r.validate 1 with
    | ok _ =>
      rw [validate_eq_ok_iff, honce] at hvalidate
      cases hvalidate
    | error e => exact ⟨e, rfl, (hraised e hvalidate).trans honce⟩

end Route

end PoolArbitrage
