import Mathlib
import PoolArbitrage.Proofs.Rates
import PoolArbitrage.Proofs.Swaps
import PoolArbitrage.Snapshot.Cycles

/-!
# What a rejected record leaves behind

A record is rejected for what it says, or because its address is taken. The second is found out
after its exchange was made known, so the snapshot is not the same afterwards: its schedule may
know one exchange more. Whoever asks cannot tell.

**Simulation.** Snapshots are alike if they differ in their schedules only and every exchange has
the same rate in both (`Snapshot.Alike`). An exchange without a rate and one that is not known
have the same rate, so a rejected record leaves a snapshot alike (`Snapshot.alike_add`). Alike
snapshots receive a record alike, with the same answer, and are alike after every feed
(`Snapshot.Alike.foldl_feed`). No question tells them apart (`Snapshot.Alike.sameAnswers`): the
schedule is only read for a rate.

**Theorem (`Snapshot.rejected_record_leaves_no_trace`).** After every further feed all questions
are answered as if the rejected record had not been reported.
-/

namespace PoolArbitrage

theorem PoolRecord.not_proper_iff {r : PoolRecord} :
    ¬ r.Proper ↔ r.address = "" ∨ r.tokenA = "" ∨ r.tokenB = "" ∨ r.tokenA = r.tokenB := by
  rw [← PoolRecord.flaw?_eq_none_iff, PoolRecord.flaw?]
  split_ifs with hnamed htokens
  · simp only [not_false_eq_true, true_iff]
    tauto
  · simp [htokens]
  · simp only [not_true_eq_false, false_iff]
    tauto

namespace Snapshot

variable {s t : Snapshot} {r : PoolRecord}

/-- Where the rates are the same, a chain of swaps is the same route. -/
theorem SameRates.route (h : SameRates s t) : s.route = t.route :=
  funext fun _ => List.map_congr_left fun w _ => h.hop w

/-! ## Snapshots alike -/

/-- **Snapshots alike** differ in their schedules only, and no exchange has another rate. -/
inductive Alike (s : Snapshot) : Snapshot → Prop
  | intro (fees : FeeSchedule) : SameRates s { s with fees } → Alike s { s with fees }

namespace Alike

theorem refl (s : Snapshot) : Alike s s := .intro s.fees fun _ => rfl

/-- An exchange that is made known in one of them only makes no difference. -/
theorem mention_right (s : Snapshot) (exchange : String) :
    Alike s { s with fees := s.fees.mention exchange } :=
  .intro _ fun e => (s.fees.rate_mention exchange e).symm

theorem mention (h : Alike s t) (exchange : String) :
    Alike { s with fees := s.fees.mention exchange }
      { t with fees := t.fees.mention exchange } := by
  obtain ⟨fees, hrates⟩ := h
  refine .intro (fees.mention exchange) fun e => ?_
  simp only [FeeSchedule.rate_mention]
  exact hrates e

theorem enter (h : Alike s t) (p : PoolEntry) (poolIndex : PoolIndex) :
    Alike (s.enter p poolIndex) (t.enter p poolIndex) := by
  obtain ⟨fees, hrates⟩ := h
  exact .intro fees hrates

theorem setFee (h : Alike s t) (exchange : String) (fee : Int32) :
    Alike (s.setFee exchange fee) (t.setFee exchange fee) := by
  obtain ⟨fees, hrates⟩ := h
  refine .intro (fees.set exchange (.ofSigned fee)) fun e => ?_
  simp only [Snapshot.setFee]
  by_cases he : e = exchange
  · subst he
    rw [FeeSchedule.rate_set_self, FeeSchedule.rate_set_self]
  · rw [FeeSchedule.rate_set_of_ne _ he, FeeSchedule.rate_set_of_ne _ he]
    exact hrates e

/-- **Alike snapshots receive a record alike**, and with the same answer. -/
theorem receive (h : Alike s t) (r : PoolRecord) :
    (s.receive r).2 = (t.receive r).2 ∧ Alike (s.receive r).1 (t.receive r).1 := by
  have hfile : t.poolIndex.file? (t.entryFor r) = s.poolIndex.file? (s.entryFor r) := by
    obtain ⟨fees, -⟩ := h
    rfl
  have hentry : s.entryFor r = t.entryFor r := by
    obtain ⟨fees, -⟩ := h
    rfl
  cases hflaw : r.flaw? with
  | some why =>
    rw [receive_of_flaw hflaw, receive_of_flaw hflaw]
    exact ⟨rfl, h⟩
  | none =>
    cases hs : s.poolIndex.file? (s.entryFor r) with
    | none =>
      rw [receive_of_taken hflaw hs, receive_of_taken hflaw (hfile.trans hs)]
      exact ⟨rfl, h.mention r.exchange⟩
    | some poolIndex =>
      rw [receive_of_new hflaw hs, receive_of_new hflaw (hfile.trans hs), ← hentry]
      exact ⟨rfl, (h.mention r.exchange).enter (s.entryFor r) poolIndex⟩

theorem feed (h : Alike s t) (step : FeedStep) : Alike (s.feed step) (t.feed step) := by
  cases step with
  | pool r => exact (h.receive r).2
  | fee exchange fee => exact h.setFee exchange fee

/-- **Snapshots alike stay alike** whatever a feed reports to both. -/
theorem foldl_feed (h : Alike s t) (steps : List FeedStep) :
    Alike (steps.foldl Snapshot.feed s) (steps.foldl Snapshot.feed t) := by
  induction steps generalizing s t with
  | nil => exact h
  | cons step steps ih => exact ih (h.feed step)

end Alike

/-! ## No question tells them apart -/

/-- A walk asks for swaps, not for rates. -/
theorem walk_withFees (s : Snapshot) (fees : FeeSchedule) (start : Token) (least room : Nat)
    (path : List Swap) (token : Token) :
    walk { s with fees } start least room path token = s.walk start least room path token := by
  induction room generalizing path token with
  | zero => rfl
  | succ room ih =>
    simp only [walk, ih]
    rfl

/-- **All questions to a snapshot**, and the answer to the next record, are answered alike. -/
structure SameAnswers (s t : Snapshot) : Prop extends SameFees s t where
  swaps : s.swaps = t.swaps
  tokens : s.tokens = t.tokens
  lookup : ∀ address, s.lookup? address = t.lookup? address
  hasPool : ∀ address, s.hasPool address = t.hasPool address
  poolOfTag : ∀ tag, s.pool? tag = t.pool? tag
  hasToken : ∀ token, s.hasToken token = t.hasToken token
  swapsFrom : ∀ token, s.swapsFrom token = t.swapsFrom token
  swapsTo : ∀ token, s.swapsTo token = t.swapsTo token
  swapsBetween : ∀ source target, s.swapsBetween source target = t.swapsBetween source target
  search : ∀ {σ : Type} (take : σ → Route → σ) (state : σ) (start : Token)
    (leastHops mostHops : Nat) (wanted : UInt32),
    s.search take state start leastHops mostHops wanted =
      t.search take state start leastHops mostHops wanted
  answer : ∀ r, (s.addLogged r).value.2 = (t.addLogged r).value.2

namespace Alike

theorem cycles (h : Alike s t) (start : Token) (least most : Nat) :
    s.cycles start least most = t.cycles start least most := by
  obtain ⟨fees, -⟩ := h
  exact (walk_withFees ..).symm

theorem sameRates (h : Alike s t) : SameRates s t := by
  obtain ⟨fees, hrates⟩ := h
  exact hrates

/-- **No question tells snapshots apart that are alike.** -/
theorem sameAnswers (h : Alike s t) : SameAnswers s t where
  toSameFees := h.sameRates.sameFees (by obtain ⟨fees, -⟩ := h; rfl)
  swaps := by obtain ⟨fees, -⟩ := h; rfl
  tokens := by obtain ⟨fees, -⟩ := h; rfl
  lookup := by obtain ⟨fees, -⟩ := h; exact fun _ => rfl
  hasPool := by obtain ⟨fees, -⟩ := h; exact fun _ => rfl
  poolOfTag := by obtain ⟨fees, -⟩ := h; exact fun _ => rfl
  hasToken := by obtain ⟨fees, -⟩ := h; exact fun _ => rfl
  swapsFrom := by obtain ⟨fees, -⟩ := h; exact fun _ => rfl
  swapsTo := by obtain ⟨fees, -⟩ := h; exact fun _ => rfl
  swapsBetween := by obtain ⟨fees, -⟩ := h; exact fun _ _ => rfl
  search := by
    intro σ take state start leastHops mostHops wanted
    rw [search_eq, search_eq, h.cycles, h.sameRates.route]
  answer := by
    intro r
    rw [value_addLogged, value_addLogged, (h.receive r).1]

end Alike

/-! ## Rejected records -/

/-- A record is rejected for what it says, or because its address is taken. -/
theorem WellFormed.rejects_iff (h : s.WellFormed) :
    (s.addLogged r).value.2 = none ↔ ¬ r.Proper ∨ s.hasPool r.address = true := by
  rw [value_addLogged, h.hasPool_iff]
  generalize hreceived : s.receive r = received
  have hreceipt : Receipt s r received := hreceived ▸ h.receipt r
  cases hreceipt with
  | flawed hflaw => exact iff_of_true rfl (.inl (PoolRecord.not_proper_of_flaw hflaw))
  | taken _ hold => exact iff_of_true rfl (.inr hold)
  | new hproper hnew _ =>
    refine iff_of_false (by simp [Except.toOption]) ?_
    push Not
    exact ⟨hproper, hnew⟩

/-- **A rejected record leaves a snapshot alike.** -/
theorem alike_add (h : s.WellFormed) (hrejected : (s.addLogged r).value.2 = none) :
    Alike s (s.add r) := by
  rw [value_addLogged] at hrejected
  rw [add]
  generalize hreceived : s.receive r = received at hrejected
  have hreceipt : Receipt s r received := hreceived ▸ h.receipt r
  cases hreceipt with
  | flawed _ => exact .refl s
  | taken _ _ => exact .mention_right s r.exchange
  | new _ _ _ => cases hrejected

/-- **A rejected record leaves no trace.** It is rejected where it names no pool, no two tokens or
the same token twice, or where its address is taken; and then all questions are answered, at once
and after every further feed, as if it had not been reported. -/
theorem rejected_record_leaves_no_trace (steps : List FeedStep) (r : PoolRecord) :
    (((ofFeed steps).addLogged r).value.2 = none ↔
      r.address = "" ∨ r.tokenA = "" ∨ r.tokenB = "" ∨ r.tokenA = r.tokenB ∨
        (ofFeed steps).hasPool r.address = true) ∧
    (((ofFeed steps).addLogged r).value.2 = none →
      ∀ later, SameAnswers (ofFeed (steps ++ later)) (ofFeed (steps ++ .pool r :: later))) := by
  have h := wellFormed_ofFeed steps
  constructor
  · rw [h.rejects_iff, PoolRecord.not_proper_iff]
    simp only [or_assoc]
  · intro hrejected later
    rw [ofFeed_append, ofFeed_append, List.foldl_cons]
    exact ((alike_add h hrejected).foldl_feed later).sameAnswers

/-- A pool of a known address, reported for an exchange that nobody has named. -/
def repeated : PoolRecord := { turned with exchange := "fresh" }

/-- What is reported next names that exchange. -/
def naming : List FeedStep :=
  [.fee "fresh" 25, .pool { address := "w", tokenA := "B", tokenB := "C", exchange := "fresh" }]

/-- A repeated pool changes the schedule, and yet no answer. -/
theorem no_trace_of_repeated :
    ((ofFeed twoPairs).addLogged repeated).value.2 = none ∧
      (ofFeed (twoPairs ++ [.pool repeated])).fees ≠ (ofFeed twoPairs).fees ∧
      SameAnswers (ofFeed (twoPairs ++ naming))
        (ofFeed (twoPairs ++ .pool repeated :: naming)) := by
  have hrejected : ((ofFeed twoPairs).addLogged repeated).value.2 = none := by decide +kernel
  exact ⟨hrejected, by decide +kernel,
    (rejected_record_leaves_no_trace twoPairs repeated).2 hrejected naming⟩

end Snapshot

end PoolArbitrage
