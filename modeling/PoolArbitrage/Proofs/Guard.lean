import Mathlib
import PoolArbitrage.Proofs.RoundTrips
import PoolArbitrage.Route.Guard

/-!
# What the guard accepts

The guard looks at four things in turn, and accepts a route that passes them all
(`Route.fault?_eq_none_iff`).

**Visits.** It counts the token a route starts from and the tokens bought. In a cycle each token
bought is sold by the next hop, so this is a count of the tokens sold, with one more for the start,
and the one more is allowed there (`Route.Cyclic.overvisited_eq_nil_iff`).

**Round trips.** What a search finds is a cycle, of a length allowed, and sells no token twice in
a row. So the guard has nothing against it but a token sold too often, and of four hops no token
is sold by more than two (`Route.RoundTrip.fault?_eq_none_iff`).
-/

namespace PoolArbitrage

theorem leastToken?_eq_none_iff {ts : List Token} : leastToken? ts = none ↔ ts = [] := by
  cases ts with
  | nil => simp [leastToken?]
  | cons t ts =>
    rw [leastToken?]
    split <;> simp

namespace Route

variable {r : Route} {repeats : UInt32} {h : Hop} {t : Token}

/-! ## The four checks -/

/-- Each hop sells what the one before bought. -/
def Chained (r : Route) : Prop := r.IsChain fun g h => g.buys = h.sells

theorem brokenAfter?_eq_none_iff : r.brokenAfter? = none ↔ r.Chained := by
  induction r with
  | nil => simp [brokenAfter?, Chained]
  | cons g r ih =>
    cases r with
    | nil => simp [brokenAfter?, Chained]
    | cons h r =>
      rw [brokenAfter?, Chained, List.isChain_cons_cons]
      by_cases hlink : g.buys = h.sells
      · rw [if_pos hlink, Option.map_eq_none_iff, ih, Chained, and_iff_right hlink]
      · simp [hlink]

/-- **The guard accepts a route** of a length allowed that visits no token too often, whose hops
follow on one another and that comes back to its start. -/
theorem fault?_eq_none_iff :
    r.fault? repeats = none ↔ minHops ≤ r.length ∧ r.length ≤ maxHops ∧
      r.overvisited repeats = [] ∧ r.Chained ∧ r.closed = true := by
  rw [fault?]
  by_cases hshort : r.length < minHops
  · simp [hshort]
  by_cases hlong : maxHops < r.length
  · simp [hshort, hlong]
  rw [if_neg hshort, if_neg hlong, ← leastToken?_eq_none_iff, ← brokenAfter?_eq_none_iff]
  cases leastToken? (r.overvisited repeats) with
  | some t => simp
  | none =>
    cases r.brokenAfter? with
    | some i => simp
    | none =>
      cases r.closed with
      | false => simp
      | true =>
        simp only [if_true, and_true, true_iff]
        exact ⟨Nat.le_of_not_lt hshort, Nat.le_of_not_lt hlong⟩

/-! ## Cycles -/

/-- **A cyclic route**: each hop sells what the one before bought, and the first what the last
bought. -/
structure Cyclic (r : Route) : Prop where
  chained : r.Chained
  closed : r.closed = true

/-- What the hops of a chain buy is what the later ones sell, and what the last one buys. -/
theorem map_buys_of_chained (hchained : Chained (h :: r)) (hfinal : final? (h :: r) = some t) :
    (h :: r).map (·.buys) = r.map (·.sells) ++ [t] := by
  induction r generalizing h with
  | nil =>
    cases hfinal
    rfl
  | cons g r ih =>
    obtain ⟨hlink, hrest⟩ := List.isChain_cons_cons.1 hchained
    have hlast : final? (g :: r) = some t := by
      rwa [final?, List.getLast?_cons_cons] at hfinal
    rw [List.map_cons, ih hrest hlast, List.map_cons, hlink, List.cons_append]

namespace Cyclic

/-- A cycle buys what it sells. -/
theorem perm_buys (hr : r.Cyclic) : (r.map (·.buys)).Perm (r.map (·.sells)) := by
  obtain ⟨hchained, hclosed⟩ := hr
  cases r with
  | nil => exact List.Perm.refl _
  | cons h r =>
    have hfinal : final? (h :: r) = some h.sells := by
      cases hlast : final? (h :: r) with
      | none => simp [Route.closed, hlast] at hclosed
      | some t =>
        have hstart : start? (h :: r) = some h.sells := rfl
        simp only [Route.closed, hstart, hlast, beq_iff_eq] at hclosed
        rw [hclosed]
    rw [map_buys_of_chained hchained hfinal]
    exact List.perm_append_singleton h.sells (r.map (·.sells))

/-- A cycle visits the tokens it sells, and its start once more. -/
theorem count_visits (hr : r.Cyclic) (t : Token) :
    r.visits.count t = (r.map (·.sells)).count t + if r.start? = some t then 1 else 0 := by
  rw [visits, List.count_append, hr.perm_buys.count_eq, Nat.add_comm]
  congr 1
  cases r.start? with
  | none => simp
  | some start => simp [List.count_singleton]

theorem toNat_allowance (hr : r.Cyclic) (hrepeats : repeats.toNat + 1 < UInt32.size) (t : Token) :
    (r.allowance repeats t).toNat = repeats.toNat + if r.start? = some t then 1 else 0 := by
  rw [allowance, hr.closed, Bool.true_and]
  by_cases hstart : r.start? = some t
  · have hnext : (repeats + 1).toNat = repeats.toNat + 1 := by
      rw [UInt32.toNat_add]
      exact Nat.mod_eq_of_lt hrepeats
    simp [hstart, hnext]
  · simp [hstart]

/-- **A cycle visits no token too often if it sells none too often.** -/
theorem overvisited_eq_nil_iff (hr : r.Cyclic) (hrepeats : repeats.toNat + 1 < UInt32.size) :
    r.overvisited repeats = [] ↔ ∀ t, (r.map (·.sells)).count t ≤ repeats.toNat := by
  have hover : ∀ t, (r.allowance repeats t).toNat < r.visits.count t ↔
      repeats.toNat < (r.map (·.sells)).count t := by
    intro t
    rw [hr.count_visits, hr.toNat_allowance hrepeats]
    exact Nat.add_lt_add_iff_right
  simp only [overvisited, List.filter_eq_nil_iff, decide_eq_true_eq, hover, not_lt]
  refine ⟨fun h t => ?_, fun h t _ => h t⟩
  by_cases hvisited : t ∈ r.visits
  · exact h t hvisited
  · have hnone := hr.count_visits t
    rw [List.count_eq_zero_of_not_mem hvisited] at hnone
    omega

end Cyclic

/-! ## Round trips -/

/-- The second and the last of four hops sell the same token. -/
def doublesBack : Route → Bool
  | [_, h, _, k] => h.sells == k.sells
  | _ => false

/-- Where no two neighbours are the same, at most every other one is. -/
theorem count_le_of_isChain_ne {ts : List Token} (hne : ts.IsChain (· ≠ ·)) (t : Token) :
    ts.count t ≤ (ts.length + 1) / 2 := by
  match ts with
  | [] => simp
  | [u] => exact (List.count_le_length).trans (by simp)
  | u :: v :: ts =>
    obtain ⟨huv, hrest⟩ := List.isChain_cons_cons.1 hne
    have htail := count_le_of_isChain_ne (List.IsChain.of_cons hrest) t
    have hpair : [u, v].count t ≤ 1 := by
      refine List.nodup_iff_count_le_one.1 ?_ t
      simpa using huv
    have hsplit : (u :: v :: ts).count t = [u, v].count t + ts.count t := by
      rw [← List.count_append]
      rfl
    simp only [List.length_cons]
    omega

namespace RoundTrip

variable {offered : List Hop} {start : Token}

theorem cyclic (hr : r.RoundTrip offered start) : r.Cyclic where
  chained := hr.chained
  closed := by
    rw [Route.closed, hr.start?, hr.final?]
    exact beq_self_eq_true start

/-- A round trip sells no token twice in a row. -/
theorem isChain_sells (hr : r.RoundTrip offered start) (hne : ∀ h ∈ offered, h.buys ≠ h.sells) :
    (r.map (·.sells)).IsChain (· ≠ ·) := by
  rw [List.isChain_map]
  refine hr.chained.imp_of_mem_imp fun g h hg _ hlink heq => ?_
  exact hne g (hr.offered g hg) (hlink.trans heq.symm)

/-- A round trip sells its start once. -/
theorem start_notMem_tail (hr : r.RoundTrip offered start) : start ∉ (r.map (·.sells)).tail := by
  cases r with
  | nil => simp
  | cons h r =>
    have hlater := congrArg List.dropLast (map_buys_of_chained hr.chained hr.final?)
    rw [List.dropLast_concat, ← List.map_dropLast] at hlater
    rw [List.map_cons, List.tail_cons, ← hlater, List.mem_map]
    intro hagain
    obtain ⟨g, hg, hbuys⟩ := hagain
    exact hr.inside g hg hbuys

/-- **A round trip of up to four hops sells a token twice just where it doubles back.** -/
theorem nodup_sells_iff (hr : r.RoundTrip offered start) (hne : ∀ h ∈ offered, h.buys ≠ h.sells)
    (hlength : r.length ≤ maxHops) : (r.map (·.sells)).Nodup ↔ ¬ r.doublesBack = true := by
  have hchain := hr.isChain_sells hne
  have honce := hr.start_notMem_tail
  obtain ⟨hop, hhead, hstart⟩ := hr.opens
  rcases r with _ | ⟨a, _ | ⟨b, _ | ⟨c, _ | ⟨d, _ | ⟨e, r⟩⟩⟩⟩⟩
  · cases hhead
  · simp [doublesBack]
  · simpa [doublesBack] using hchain
  · cases hhead
    simp only [List.map_cons, List.map_nil, List.isChain_cons_cons, List.tail_cons, List.mem_cons,
      List.not_mem_nil, or_false, not_or] at hchain honce
    simp [doublesBack, hchain.2.1, hstart, honce]
  · cases hhead
    simp only [List.map_cons, List.map_nil, List.isChain_cons_cons, List.tail_cons, List.mem_cons,
      List.not_mem_nil, or_false, not_or] at hchain honce
    simp [doublesBack, hchain.2.1, hchain.2.2.1, hstart, honce]
  · simp only [List.length_cons, maxHops] at hlength
    omega

/-- **All the guard has against a round trip** of a length allowed is that it doubles back, where
tokens may not repeat. -/
theorem fault?_eq_none_iff (hr : r.RoundTrip offered start)
    (hne : ∀ h ∈ offered, h.buys ≠ h.sells) (hleast : minHops ≤ r.length)
    (hmost : r.length ≤ maxHops) (hsome : 1 ≤ repeats.toNat)
    (hrepeats : repeats.toNat + 1 < UInt32.size) :
    r.fault? repeats = none ↔ ¬ (repeats = 1 ∧ r.doublesBack = true) := by
  have hcyclic := hr.cyclic
  rw [Route.fault?_eq_none_iff, hcyclic.overvisited_eq_nil_iff hrepeats]
  simp only [hleast, hmost, hcyclic.chained, hcyclic.closed, true_and, and_true]
  by_cases hone : repeats = 1
  · rw [hone, and_iff_right rfl, ← hr.nodup_sells_iff hne hmost, List.nodup_iff_count_le_one]
    rfl
  · have hhalf : ∀ t, (r.map (·.sells)).count t ≤ repeats.toNat := by
      intro t
      have hcount := count_le_of_isChain_ne (hr.isChain_sells hne) t
      have htwo : repeats.toNat ≠ 1 := fun h => hone (UInt32.toNat_inj.1 h)
      rw [List.length_map] at hcount
      simp only [maxHops] at hmost
      omega
    simp [hone, hhalf]

/-- Whatever the allowance, a round trip of a length allowed is accepted or visits a token too
often. -/
theorem check_eq (hr : r.RoundTrip offered start) (hleast : minHops ≤ r.length)
    (hmost : r.length ≤ maxHops) (repeats : UInt32) :
    r.check repeats = .ok ∨ r.check repeats = .circular := by
  have hshort : ¬ r.length < minHops := Nat.not_lt.2 hleast
  have hlong : ¬ maxHops < r.length := Nat.not_lt.2 hmost
  have hchained := brokenAfter?_eq_none_iff.2 hr.cyclic.chained
  rw [check, fault?, if_neg hshort, if_neg hlong, hchained, if_pos hr.cyclic.closed]
  cases leastToken? (r.overvisited repeats) with
  | some t => exact .inr rfl
  | none => exact .inl rfl

end RoundTrip

end Route

end PoolArbitrage
