import Mathlib
import PoolArbitrage.Proofs.Ranking
import PoolArbitrage.Scan.Report

/-!
# Standings

A key is *ahead* of another when its rate is higher, or the rates are equal and its profit is
higher, or both are equal and its id is less. It may then not stand after the other. Keys of which
neither is ahead are one key (`RankKey.not_ahead_iff_eq`), so being ahead is a strict order on the
keys, and entries tie just where their keys are the same.

A list is a *standing* of its entries (`Standing`) when nothing is lost or added, no entry stands
behind one it is ahead of, and those that tie stand as they came. There is one standing
(`Standing.eq`), whatever the sort that finds it.

**Cut at a rank.** What follows in a standing is not ahead of what precedes, so the entries cut off
are ahead of none that are kept (`Standing.not_ahead_of_cut`, `Report.cut_off_not_ahead`).

**Theorem (`Opportunity.ranking_is_the_standing`).** Ranking gives the standing of the entries, and
leaves a standing as it is.
-/

namespace PoolArbitrage

namespace RankKey

variable {a b c : RankKey}

/-- The first key comes before the second. -/
def ahead (a b : RankKey) : Bool :=
  if a.bps ≠ b.bps then b.bps < a.bps
  else if a.net ≠ b.net then b.net < a.net
  else a.id < b.id

theorem ahead_iff :
    a.ahead b = true ↔
      b.bps < a.bps ∨ a.bps = b.bps ∧ (b.net < a.net ∨ a.net = b.net ∧ a.id < b.id) := by
  unfold ahead
  by_cases hbps : a.bps = b.bps
  · by_cases hnet : a.net = b.net
    · simp [hbps, hnet]
    · simp [hbps, hnet]
  · simp [hbps]

/-- A key is not ahead of another just where the other may stand before it. -/
theorem ahead_eq_false_iff : a.ahead b = false ↔ b.notAfter a = true := by
  rw [← Bool.not_eq_true, ahead_iff, notAfter_iff]
  simp only [UInt64.lt_iff_toNat_lt, UInt64.le_iff_toNat_le, ← UInt64.toNat_inj]
  omega

theorem ahead_irrefl (a : RankKey) : a.ahead a = false :=
  ahead_eq_false_iff.2 (notAfter_refl a)

theorem ahead_trans (hab : a.ahead b = true) (hbc : b.ahead c = true) : a.ahead c = true := by
  rw [ahead_iff] at hab hbc ⊢
  simp only [UInt64.lt_iff_toNat_lt, ← UInt64.toNat_inj] at hab hbc ⊢
  omega

/-- Keys tie just where they are the same. -/
theorem not_ahead_iff_eq : a.ahead b = false ∧ b.ahead a = false ↔ a = b := by
  constructor
  · rintro ⟨hab, hba⟩
    exact notAfter_antisymm (ahead_eq_false_iff.1 hba) (ahead_eq_false_iff.1 hab)
  · rintro rfl
    exact ⟨ahead_irrefl a, ahead_irrefl a⟩

end RankKey

variable {α : Type} {key : α → RankKey} {entries ranked ranked' : List α}

/-- The second list is a standing of the entries in the first. -/
structure Standing (key : α → RankKey) (entries ranked : List α) : Prop where
  perm : ranked.Perm entries
  ordered : ranked.Pairwise fun a b => (key b).ahead (key a) = false
  stable : ∀ k, ranked.filter (fun a => key a = k) = entries.filter fun a => key a = k

theorem pairwise_not_ahead_iff :
    ranked.Pairwise (fun a b => (key b).ahead (key a) = false) ↔
      ranked.Pairwise fun a b => (key a).notAfter (key b) = true := by
  simp only [RankKey.ahead_eq_false_iff]

/-- **Ranking finds a standing.** -/
theorem standing_rank (key : α → RankKey) (entries : List α) :
    Standing key entries (rank key entries) where
  perm := perm_rank key entries
  ordered := pairwise_not_ahead_iff.2 (pairwise_rank key entries)
  stable := filter_rank key entries

namespace Standing

/-- **There is one standing of a list.** -/
theorem eq (h : Standing key entries ranked) (h' : Standing key entries ranked') :
    ranked = ranked' :=
  eq_of_pairwise_of_filter (pairwise_not_ahead_iff.1 h.ordered)
    (pairwise_not_ahead_iff.1 h'.ordered) fun k => (h.stable k).trans (h'.stable k).symm

/-- A standing is ranked already. -/
theorem rank_eq (h : Standing key entries ranked) : rank key ranked = ranked :=
  rank_of_pairwise (pairwise_not_ahead_iff.1 h.ordered)

/-- **What is cut off is ahead of nothing kept.** -/
theorem not_ahead_of_cut (h : Standing key entries ranked) (m : Nat) {kept dropped : α}
    (hkept : kept ∈ ranked.take m) (hdropped : dropped ∈ ranked.drop m) :
    (key dropped).ahead (key kept) = false := by
  have hordered := h.ordered
  rw [← List.take_append_drop m ranked, List.pairwise_append] at hordered
  exact hordered.2.2 kept hkept dropped hdropped

end Standing

/-- **A report cut to the best** keeps as many entries as its limit if it leaves any out, and those
left out are ahead of none it keeps. -/
theorem Report.cut_off_not_ahead (r : Report) (matchLimit : Nat) :
    ∃ cut, ((r.ranked matchLimit).opportunities ++ cut).Perm r.opportunities ∧
      (cut ≠ [] → (r.ranked matchLimit).opportunities.length = matchLimit) ∧
      ∀ kept ∈ (r.ranked matchLimit).opportunities, ∀ dropped ∈ cut,
        dropped.rankKey.ahead kept.rankKey = false := by
  have hstanding := standing_rank Opportunity.rankKey r.opportunities
  by_cases hlimit : matchLimit = 0
  -- No limit is set and nothing is left out.
  · refine ⟨[], ?_, by simp, by simp⟩
    simpa [ranked, hlimit] using hstanding.perm
  · have hkept : (r.ranked matchLimit).opportunities =
        (rank Opportunity.rankKey r.opportunities).take matchLimit := by
      simp [ranked, hlimit]
    refine ⟨(rank Opportunity.rankKey r.opportunities).drop matchLimit, ?_, fun hcut => ?_, ?_⟩
    · rw [hkept, List.take_append_drop]
      exact hstanding.perm
    · have hlength := List.length_pos_iff.2 hcut
      rw [List.length_drop] at hlength
      rw [hkept, List.length_take]
      omega
    · rw [hkept]
      exact fun kept hk dropped hd => hstanding.not_ahead_of_cut matchLimit hk hd

namespace Opportunity

/-- **Ranking gives the standing.** Opportunities ranked are those given, by rate and then by
profit, both falling, and then by id, rising; where all three are equal they stay as they came. No
other list is in this order, ranking again leaves it as it is, and wherever it is cut no entry cut
off is ahead of one that is kept. -/
theorem ranking_is_the_standing (entries : List Opportunity) :
    let ranked := rank rankKey entries
    ranked.Perm entries ∧
    ranked.Pairwise (fun a b => b.netBps < a.netBps ∨ a.netBps = b.netBps ∧
      (b.netProfit < a.netProfit ∨ a.netProfit = b.netProfit ∧ a.id ≤ b.id)) ∧
    (∀ bps net id,
      ranked.filter (fun o => o.netBps = bps ∧ o.netProfit = net ∧ o.id = id) =
        entries.filter fun o => o.netBps = bps ∧ o.netProfit = net ∧ o.id = id) ∧
    (∀ ranked', Standing rankKey entries ranked' ↔ ranked' = ranked) ∧
    rank rankKey ranked = ranked ∧
    (∀ m, ∀ kept ∈ ranked.take m, ∀ dropped ∈ ranked.drop m,
      dropped.rankKey.ahead kept.rankKey = false) ∧
    ∀ a b c : RankKey, a.ahead a = false ∧
      (a.ahead b = true → b.ahead c = true → a.ahead c = true) ∧
      (a.ahead b = false ∧ b.ahead a = false ↔ a = b) := by
  intro ranked
  have hstanding : Standing rankKey entries ranked := standing_rank rankKey entries
  refine ⟨hstanding.perm, ?_, fun bps net id => ?_, fun ranked' => ⟨?_, ?_⟩, hstanding.rank_eq,
    fun m kept hkept dropped hdropped => hstanding.not_ahead_of_cut m hkept hdropped, ?_⟩
  · refine (pairwise_rank rankKey entries).imp fun hab => ?_
    exact RankKey.notAfter_iff.1 hab
  · simpa only [rankKey, RankKey.mk.injEq] using hstanding.stable ⟨bps, net, id⟩
  · exact fun h => h.eq hstanding
  · rintro rfl
    exact hstanding
  · exact fun a b c =>
      ⟨RankKey.ahead_irrefl a, RankKey.ahead_trans, RankKey.not_ahead_iff_eq⟩

/-- Four opportunities of one rate, two of which tie. -/
def tied : List Opportunity :=
  [{ id := 3, netProfit := 100, netBps := 10, amountIn := 1 },
    { id := 2, netProfit := 200, netBps := 10, amountIn := 2 },
    { id := 1, netProfit := 100, netBps := 10, amountIn := 3 },
    { id := 3, netProfit := 100, netBps := 10, amountIn := 4 }]

/-- Of the four, the two that tie come last and in their order. Cut in two, neither of them is ahead
of the two that are kept. -/
theorem standing_of_tied :
    (rank rankKey tied).map (·.amountIn) = [2, 3, 1, 4] ∧
      (∀ kept ∈ (rank rankKey tied).take 2, ∀ dropped ∈ (rank rankKey tied).drop 2,
        dropped.rankKey.ahead kept.rankKey = false) ∧
      (⟨10, 200, 2⟩ : RankKey).ahead ⟨10, 100, 3⟩ = true := by
  obtain ⟨-, -, -, -, -, hcut, hkeys⟩ := ranking_is_the_standing tied
  obtain ⟨-, htrans, -⟩ := hkeys ⟨10, 200, 2⟩ ⟨10, 100, 1⟩ ⟨10, 100, 3⟩
  have hranked : (rank rankKey tied).map (·.amountIn) = [2, 3, 1, 4] := by
    simp [rank, tied, List.mergeSort, rankKey, RankKey.notAfter]
  exact ⟨hranked, hcut 2, htrans (by decide) (by decide)⟩

end Opportunity

end PoolArbitrage
