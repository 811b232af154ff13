import Mathlib
import PoolArbitrage.Opportunity

/-!
# The order of the ranked entries

An entry may stand before another when its rate is higher, or the rates are equal and its profit
is higher, or both are equal and its id is not greater. This is a total preorder on the keys, so
sorting by it gives a list in which every entry may stand before all that follow.

**Theorems (`perm_rank`, `pairwise_rank`).** Ranking neither drops nor repeats an entry, and puts
them in order.

**Theorem (`rank_sublist`).** Entries that are left out leave the others in the order they had.

**Theorem (`eq_of_pairwise_of_filter`).** A ranked list is told by the entries it holds of each key,
in their order. Ranking keeps these as they came (`filter_rank`), so the parts of a list may as well
be ranked before the whole is (`rank_append_rank`).
-/

namespace PoolArbitrage

namespace RankKey

variable {a b c : RankKey}

theorem notAfter_iff :
    a.notAfter b = true ↔
      b.bps < a.bps ∨ a.bps = b.bps ∧ (b.net < a.net ∨ a.net = b.net ∧ a.id ≤ b.id) := by
  unfold notAfter
  by_cases hbps : a.bps = b.bps
  · by_cases hnet : a.net = b.net
    · simp [hbps, hnet]
    · simp [hbps, hnet]
  · simp [hbps]

theorem notAfter_trans (hab : a.notAfter b = true) (hbc : b.notAfter c = true) :
    a.notAfter c = true := by
  rw [notAfter_iff] at hab hbc ⊢
  simp only [UInt64.lt_iff_toNat_lt, UInt64.le_iff_toNat_le, ← UInt64.toNat_inj] at hab hbc ⊢
  omega

theorem notAfter_total (a b : RankKey) : a.notAfter b = true ∨ b.notAfter a = true := by
  simp only [notAfter_iff, UInt64.lt_iff_toNat_lt, UInt64.le_iff_toNat_le, ← UInt64.toNat_inj]
  omega

theorem notAfter_refl (a : RankKey) : a.notAfter a = true := or_self_iff.1 (notAfter_total a a)

/-- Keys of which each may stand before the other are one key. -/
theorem notAfter_antisymm (hab : a.notAfter b = true) (hba : b.notAfter a = true) : a = b := by
  obtain ⟨bps, net, id⟩ := a
  obtain ⟨bps', net', id'⟩ := b
  simp only [notAfter_iff, UInt64.lt_iff_toNat_lt, UInt64.le_iff_toNat_le,
    ← UInt64.toNat_inj] at hab hba
  have hbps : bps = bps' := UInt64.toNat_inj.1 (by omega)
  have hnet : net = net' := UInt64.toNat_inj.1 (by omega)
  have hid : id = id' := UInt64.toNat_inj.1 (by omega)
  rw [hbps, hnet, hid]

end RankKey

variable {α : Type} {key : α → RankKey}

/-- **Ranking neither drops nor repeats an entry.** -/
theorem perm_rank (key : α → RankKey) (entries : List α) : (rank key entries).Perm entries :=
  List.mergeSort_perm ..

theorem length_rank (entries : List α) : (rank key entries).length = entries.length :=
  (perm_rank key entries).length_eq

/-- **Each ranked entry may stand before all that follow.** -/
theorem pairwise_rank (key : α → RankKey) (entries : List α) :
    (rank key entries).Pairwise fun a b => (key a).notAfter (key b) = true := by
  refine List.pairwise_mergeSort (fun a b c hab hbc => ?_) (fun a b => ?_) entries
  · exact RankKey.notAfter_trans hab hbc
  · rw [Bool.or_eq_true]
    exact RankKey.notAfter_total (key a) (key b)

/-- An entry in front of others is ranked behind those that must stand before it, and before the
rest. -/
theorem rank_cons (key : α → RankKey) (a : α) (entries : List α) :
    ∃ before after, rank key (a :: entries) = before ++ a :: after ∧
      rank key entries = before ++ after ∧
      (∀ b ∈ before, (key a).notAfter (key b) = false) ∧
      ∀ b ∈ after, (key a).notAfter (key b) = true := by
  have htrans : ∀ a b c : α, (key a).notAfter (key b) = true → (key b).notAfter (key c) = true →
      (key a).notAfter (key c) = true := fun _ _ _ => RankKey.notAfter_trans
  have htotal : ∀ a b : α, ((key a).notAfter (key b) || (key b).notAfter (key a)) = true := by
    intro a b
    rw [Bool.or_eq_true]
    exact RankKey.notAfter_total (key a) (key b)
  obtain ⟨before, after, hcons, hrest, hbefore⟩ := List.mergeSort_cons htrans htotal a entries
  refine ⟨before, after, hcons, hrest, fun b hb => by simpa using hbefore b hb, ?_⟩
  have hordered := pairwise_rank key (a :: entries)
  rw [rank, hcons] at hordered
  exact (List.pairwise_cons.1 (List.pairwise_append.1 hordered).2.1).1

/-- What fails a test and what passes it, one after the other, are parts of a list each. -/
theorem sublist_of_append_sublist {p : α → Bool} {fails passes fails' passes' : List α}
    (h : (fails ++ passes).Sublist (fails' ++ passes')) (hfails : ∀ b ∈ fails, p b = false)
    (hpasses : ∀ b ∈ passes, p b = true) (hfails' : ∀ b ∈ fails', p b = false)
    (hpasses' : ∀ b ∈ passes', p b = true) : fails.Sublist fails' ∧ passes.Sublist passes' := by
  have hnone : ∀ l : List α, (∀ b ∈ l, p b = false) → l.filter p = [] :=
    fun l hl => List.filter_eq_nil_iff.2 fun b hb => by simp [hl b hb]
  have hnone' : ∀ l : List α, (∀ b ∈ l, p b = true) → (l.filter fun b => !p b) = [] :=
    fun l hl => List.filter_eq_nil_iff.2 fun b hb => by simp [hl b hb]
  have hall : ∀ l : List α, (∀ b ∈ l, p b = false) → (l.filter fun b => !p b) = l :=
    fun l hl => List.filter_eq_self.2 fun b hb => by simp [hl b hb]
  constructor
  · have hsub := h.filter fun b => !p b
    rwa [List.filter_append, List.filter_append, hall _ hfails, hall _ hfails', hnone' _ hpasses,
      hnone' _ hpasses', List.append_nil, List.append_nil] at hsub
  · have hsub := h.filter p
    rwa [List.filter_append, List.filter_append, hnone _ hfails, hnone _ hfails',
      List.filter_eq_self.2 hpasses, List.filter_eq_self.2 hpasses'] at hsub

/-- **Entries left out change nothing in the order of the others.** -/
theorem rank_sublist {entries others : List α} (h : entries.Sublist others) :
    (rank key entries).Sublist (rank key others) := by
  induction h with
  | slnil => exact List.Sublist.refl _
  | @cons entries others a _ ih =>
    obtain ⟨before, after, hcons, hrest, -, -⟩ := rank_cons key a others
    rw [hrest] at ih
    rw [hcons]
    exact ih.middle a
  | @cons_cons entries others a _ ih =>
    obtain ⟨before, after, hcons, hrest, hbefore, hafter⟩ := rank_cons key a entries
    obtain ⟨before', after', hcons', hrest', hbefore', hafter'⟩ := rank_cons key a others
    rw [hrest, hrest'] at ih
    rw [hcons, hcons']
    obtain ⟨hfront, hback⟩ := sublist_of_append_sublist ih hbefore hafter hbefore' hafter'
    exact hfront.append (hback.cons_cons a)

/-- **Ranking and leaving out entries commute.** -/
theorem rank_filter (key : α → RankKey) (p : α → Bool) (entries : List α) :
    rank key (entries.filter p) = (rank key entries).filter p := by
  have hkeep : (rank key (entries.filter p)).filter p = rank key (entries.filter p) := by
    apply List.filter_eq_self.2
    intro a ha
    exact (List.mem_filter.1 ((perm_rank ..).mem_iff.1 ha)).2
  have hsub : (rank key (entries.filter p)).Sublist (rank key entries) :=
    rank_sublist List.filter_sublist
  have hfiltered := hsub.filter p
  rw [hkeep] at hfiltered
  apply hfiltered.eq_of_length
  rw [length_rank, ((perm_rank key entries).filter p).length_eq]

/-! ## Entries of one key -/

/-- Entries in order stay where they are. -/
theorem rank_of_pairwise {entries : List α}
    (h : entries.Pairwise fun a b => (key a).notAfter (key b) = true) :
    rank key entries = entries :=
  List.mergeSort_of_pairwise h

/-- **Ranking keeps the entries of one key in the order they came.** -/
theorem filter_rank (key : α → RankKey) (entries : List α) (k : RankKey) :
    (rank key entries).filter (fun a => key a = k) = entries.filter fun a => key a = k := by
  rw [← rank_filter]
  apply rank_of_pairwise
  apply List.pairwise_of_forall_mem_list
  intro a ha b hb
  have hkey : ∀ c ∈ entries.filter (fun a => key a = k), key c = k := by
    intro c hc
    simpa using (List.mem_filter.1 hc).2
  rw [hkey a ha, hkey b hb]
  exact RankKey.notAfter_refl k

/-- Entries in order are told by those of each key. -/
theorem eq_of_pairwise_of_filter {as bs : List α}
    (has : as.Pairwise fun a b => (key a).notAfter (key b) = true)
    (hbs : bs.Pairwise fun a b => (key a).notAfter (key b) = true)
    (h : ∀ k, as.filter (fun a => key a = k) = bs.filter fun a => key a = k) : as = bs := by
  induction as generalizing bs with
  | nil =>
    cases bs with
    | nil => rfl
    | cons b bs => simpa using h (key b)
  | cons a as ih =>
    cases bs with
    | nil => simpa using h (key a)
    | cons b bs =>
      -- Each of the two heads is found in the other list, so neither may stand after the other.
      have hmem : ∀ c, c ∈ a :: as ↔ c ∈ b :: bs := by
        intro c
        have hc := congrArg (c ∈ ·) (h (key c))
        simpa only [List.mem_filter, decide_true, and_true, eq_iff_iff] using hc
      have hfirst : ∀ c ∈ a :: as, (key a).notAfter (key c) = true := by
        intro c hc
        rcases List.mem_cons.1 hc with rfl | hc
        · exact RankKey.notAfter_refl _
        · exact (List.pairwise_cons.1 has).1 c hc
      have hfirst' : ∀ c ∈ b :: bs, (key b).notAfter (key c) = true := by
        intro c hc
        rcases List.mem_cons.1 hc with rfl | hc
        · exact RankKey.notAfter_refl _
        · exact (List.pairwise_cons.1 hbs).1 c hc
      have hkey : key a = key b := RankKey.notAfter_antisymm
        (hfirst b ((hmem b).2 List.mem_cons_self)) (hfirst' a ((hmem a).1 List.mem_cons_self))
      have hhead := h (key b)
      rw [List.filter_cons_of_pos (by simpa using hkey), List.filter_cons_of_pos (by simp)] at hhead
      obtain ⟨rfl, htail⟩ := List.cons.inj hhead
      rw [ih (List.pairwise_cons.1 has).2 (List.pairwise_cons.1 hbs).2]
      intro k
      by_cases hk : key a = k
      · rw [← hk]
        exact htail
      · have hrest := h k
        rwa [List.filter_cons_of_neg (by simpa using hk),
          List.filter_cons_of_neg (by simpa using hk)] at hrest

/-- **The parts of a list may be ranked first.** -/
theorem rank_append_rank (key : α → RankKey) (as bs : List α) :
    rank key (rank key as ++ rank key bs) = rank key (as ++ bs) := by
  apply eq_of_pairwise_of_filter (pairwise_rank ..) (pairwise_rank ..)
  intro k
  simp only [filter_rank, List.filter_append]

/-- Entries in another order are ranked the same, those of one key apart. -/
theorem map_rank_of_perm {as bs : List α} (h : as.Perm bs) :
    (rank key as).map key = (rank key bs).map key := by
  have hordered : ∀ cs : List α,
      ((rank key cs).map key).Pairwise fun a b => a.notAfter b = true := by
    intro cs
    rw [List.pairwise_map]
    exact pairwise_rank key cs
  refine List.Perm.eq_of_pairwise (fun a b _ _ => RankKey.notAfter_antisymm) (hordered as)
    (hordered bs) ?_
  exact ((perm_rank ..).trans (h.trans (perm_rank ..).symm)).map key

end PoolArbitrage
