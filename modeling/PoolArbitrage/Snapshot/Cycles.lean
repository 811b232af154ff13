import PoolArbitrage.Route.Guard
import PoolArbitrage.Snapshot

/-!
# Cycles of swaps

Candidate routes are the cycles of the token graph: chains of swaps that start and end on one
token, of a bounded length, crossing no pool twice. A cycle ends as soon as it is back at its
start; the tokens in between may repeat, which the route guard judges.

**Order.** Cycles are walked depth first along the swaps in pool order, so they come out in the
order of their pools' tags.

**Bounds.** The wanted lengths are brought within the lengths a route may have. A walk that may
still take no hop finds nothing.

**Handing over.** A search hands each route over as it is found and counts them in a word
(`Snapshot.search`). If only so many are wanted, it breaks off when it has handed them over. If all
are wanted there may be more of them than the word counts; then it starts over at zero.

Main results: `Snapshot.length_walk_le`, no chain is longer than the walk allows, and
`Snapshot.search_eq`, a search hands over the cycles in order up to the last one wanted.
-/

namespace PoolArbitrage

/-- Why routes cannot be looked for. -/
inductive DiscoveryError where
  | noCallback
  | noSnapshot
  deriving DecidableEq, Repr

def DiscoveryError.message : DiscoveryError → String
  | noCallback => "find_all_routes(): callback not set"
  | noSnapshot => "find_all_routes(): snapshot not set"

namespace Snapshot

/-- The chains that go on from `path`, which has come to `token`, and close on `start` after at
most `room` more hops and no less than `least` in all. -/
def walk (s : Snapshot) (start : Token) (least : Nat) : Nat → List Swap → Token → List (List Swap)
  | 0, _, _ => []
  | room + 1, path, token =>
    (s.swapsFrom token).flatMap fun w =>
      if path.any (·.pool.tag == w.pool.tag) then []
      else if w.buys = start then
        if least ≤ path.length + 1 then [path ++ [w]] else []
      else s.walk start least room (path ++ [w]) w.buys

theorem length_walk_le (s : Snapshot) (start : Token) (least room : Nat) (path : List Swap)
    (token : Token) :
    ∀ c ∈ s.walk start least room path token, c.length ≤ path.length + room := by
  induction room generalizing path token with
  | zero => simp [walk]
  | succ room ih =>
    intro c hc
    simp only [walk, List.mem_flatMap] at hc
    obtain ⟨w, -, hc⟩ := hc
    split at hc
    · simp at hc
    · split at hc
      · split at hc <;> simp_all
      · have := ih _ _ c hc
        simp at this
        omega

/-- The cycles through a token of `least` to `most` hops. -/
def cycles (s : Snapshot) (start : Token) (least most : Nat) : List (List Swap) :=
  s.walk start (Nat.max least minHops) (Nat.min most maxHops) [] start

/-! ## Handing routes over -/

/-- A chain of swaps as a route. -/
def route (s : Snapshot) (c : List Swap) : Route := c.map (·.hop s.fees)

/-- How far a search has come: the state of whoever takes the routes, and the count of those handed
over, in a word that wraps. -/
structure Progress (σ : Type) where
  state : σ
  count : UInt32 := 0

namespace Progress

variable {σ : Type}

/-- Hands a route over. The search breaks off at the last route wanted; zero wants all of them. -/
def hand (take : σ → Route → σ) (wanted : UInt32) (p : Progress σ) (r : Route) :
    Except (Progress σ) (Progress σ) :=
  let next := { state := take p.state r, count := p.count + 1 }
  if wanted ≠ 0 ∧ wanted ≤ next.count then .error next else .ok next

/-- The progress made, whether the search broke off or not. -/
def reached : Except (Progress σ) (Progress σ) → Progress σ
  | .ok p | .error p => p

/-- The routes wanted of those there are. -/
def wantedOf {α : Type} (wanted : UInt32) (all : List α) : List α :=
  if wanted = 0 then all else all.take wanted.toNat

theorem toNat_count_succ {count wanted : UInt32} (h : count < wanted) :
    (count + 1).toNat = count.toNat + 1 := by
  have hlt := UInt32.lt_iff_toNat_lt.1 h
  have hword := wanted.toNat_lt
  rw [UInt32.toNat_add, UInt32.toNat_one, Nat.mod_eq_of_lt (by omega)]

/-- Handing over all routes counts them modulo the word. -/
theorem reached_foldlM_hand_zero (take : σ → Route → σ) (rs : List Route) (p : Progress σ) :
    reached (rs.foldlM (hand take 0) p) =
      { state := rs.foldl take p.state, count := p.count + .ofNat rs.length } := by
  induction rs generalizing p with
  | nil => simp [reached, pure, Except.pure]
  | cons r rs ih =>
    have hnext : hand take 0 p r = .ok ⟨take p.state r, p.count + 1⟩ := by simp [hand]
    simp only [List.foldlM_cons, hnext, bind, Except.bind]
    rw [ih, List.foldl_cons, List.length_cons, UInt32.ofNat_add, UInt32.add_assoc,
      UInt32.add_comm 1]
    rfl

/-- Handing over some routes breaks off at the last one wanted, and never wraps. -/
theorem reached_foldlM_hand (take : σ → Route → σ) {wanted : UInt32} (rs : List Route)
    {p : Progress σ} (h : p.count < wanted) :
    reached (rs.foldlM (hand take wanted) p) =
      let taken := rs.take (wanted.toNat - p.count.toNat)
      { state := taken.foldl take p.state, count := p.count + .ofNat taken.length } := by
  induction rs generalizing p with
  | nil => simp [reached, pure, Except.pure]
  | cons r rs ih =>
    have hsucc := toNat_count_succ h
    have hlt := UInt32.lt_iff_toNat_lt.1 h
    have hwanted : wanted ≠ 0 := by
      rintro rfl
      exact absurd hlt (Nat.not_lt_zero _)
    by_cases hlast : wanted ≤ p.count + 1
    · have hle := UInt32.le_iff_toNat_le.1 hlast
      have hone : wanted.toNat - p.count.toNat = 1 := by omega
      have hbreak : hand take wanted p r = .error ⟨take p.state r, p.count + 1⟩ :=
        if_pos ⟨hwanted, hlast⟩
      simp only [List.foldlM_cons, hbreak, bind, Except.bind, reached, hone, List.take_succ_cons,
        List.take_zero, List.foldl_cons, List.foldl_nil, List.length_cons, List.length_nil]
      rfl
    · have hnext : p.count + 1 < wanted := UInt32.not_le.1 hlast
      have hgo : hand take wanted p r = .ok ⟨take p.state r, p.count + 1⟩ :=
        if_neg fun hstop => hlast hstop.2
      obtain ⟨k, hk⟩ : ∃ k, wanted.toNat - p.count.toNat = k + 1 :=
        ⟨wanted.toNat - p.count.toNat - 1, by omega⟩
      have hk' : wanted.toNat - (p.count + 1).toNat = k := by omega
      simp only [List.foldlM_cons, hgo, bind, Except.bind]
      rw [ih (p := ⟨take p.state r, p.count + 1⟩) hnext]
      simp only [hk, hk', List.take_succ_cons, List.foldl_cons, List.length_cons,
        UInt32.ofNat_add, UInt32.add_assoc, UInt32.add_comm 1]
      rfl

end Progress

variable {σ : Type}

/-- The walk that hands each chain over as it is found, and ends where handing over breaks off. -/
def visit (s : Snapshot) (start : Token) (least : Nat)
    (hand : Progress σ → List Swap → Except (Progress σ) (Progress σ)) :
    Nat → List Swap → Token → Progress σ → Except (Progress σ) (Progress σ)
  | 0, _, _, p => .ok p
  | room + 1, path, token, p =>
    (s.swapsFrom token).foldlM (fun p w =>
      if path.any (·.pool.tag == w.pool.tag) then .ok p
      else if w.buys = start then
        if least ≤ path.length + 1 then hand p (path ++ [w]) else .ok p
      else s.visit start least hand room (path ++ [w]) w.buys p) p

theorem foldlM_flatMap {α β : Type} {m : Type → Type} [Monad m] [LawfulMonad m] (f : α → List β)
    (g : σ → β → m σ) (as : List α) (x : σ) :
    (as.flatMap f).foldlM g x = as.foldlM (fun x a => (f a).foldlM g x) x := by
  induction as generalizing x with
  | nil => simp
  | cons a as ih => simp [List.flatMap_cons, List.foldlM_append, ih]

/-- **The visit hands over the chains of the walk, one after the other.** -/
theorem visit_eq_foldlM (s : Snapshot) (start : Token) (least : Nat)
    (hand : Progress σ → List Swap → Except (Progress σ) (Progress σ)) (room : Nat)
    (path : List Swap) (token : Token) (p : Progress σ) :
    s.visit start least hand room path token p =
      (s.walk start least room path token).foldlM hand p := by
  induction room generalizing path token p with
  | zero => rfl
  | succ room ih =>
    simp only [visit, walk, foldlM_flatMap]
    congr 1
    funext p w
    split
    · rfl
    · split
      · split
        · simp
        · rfl
      · exact ih _ _ _

/-- Hands the routes through a token over one by one and counts them: all routes, or as many as
wanted. -/
def search (s : Snapshot) (take : σ → Route → σ) (state : σ) (start : Token)
    (leastHops mostHops : Nat) (wanted : UInt32) : Progress σ :=
  let hand := fun p c => Progress.hand take wanted p (s.route c)
  .reached (s.visit start (Nat.max leastHops minHops) hand (Nat.min mostHops maxHops) [] start
    { state })

/-- **A search hands over the cycles in order, up to the last one wanted**, and counts them modulo
the word. -/
theorem search_eq (s : Snapshot) (take : σ → Route → σ) (state : σ) (start : Token)
    (leastHops mostHops : Nat) (wanted : UInt32) :
    s.search take state start leastHops mostHops wanted =
      let taken := Progress.wantedOf wanted (s.cycles start leastHops mostHops)
      { state := (taken.map s.route).foldl take state, count := .ofNat taken.length } := by
  have hmap : ∀ cs : List (List Swap), ∀ p : Progress σ,
      cs.foldlM (fun p c => Progress.hand take wanted p (s.route c)) p =
        (cs.map s.route).foldlM (Progress.hand take wanted) p := fun cs p => by
    rw [List.foldlM_map]
  simp only [search, visit_eq_foldlM, hmap]
  by_cases hall : wanted = 0
  · subst hall
    rw [Progress.reached_foldlM_hand_zero]
    simp [Progress.wantedOf, cycles]
  · have hpos : (⟨state, 0⟩ : Progress σ).count < wanted := UInt32.pos_iff_ne_zero.2 hall
    rw [Progress.reached_foldlM_hand take _ hpos]
    simp [Progress.wantedOf, hall, cycles, List.map_take]

/-! ## Routes -/

/-- The routes found through a token, put one behind the other: all of them, or as many as
wanted. -/
def found (s : Snapshot) (start : Token) (leastHops mostHops : Nat) (wanted : UInt32) :
    Progress (Array Route) :=
  s.search Array.push #[] start leastHops mostHops wanted

def routesThrough (s : Snapshot) (start : Token) (leastHops mostHops : Nat) (wanted : UInt32) :
    List Route :=
  (s.found start leastHops mostHops wanted).state.toList

theorem routesThrough_eq (s : Snapshot) (start : Token) (leastHops mostHops : Nat)
    (wanted : UInt32) :
    s.routesThrough start leastHops mostHops wanted =
      (Progress.wantedOf wanted (s.cycles start leastHops mostHops)).map s.route := by
  simp [routesThrough, found, search_eq]

/-- The routes found tell how they were counted. -/
theorem found_eq (s : Snapshot) (start : Token) (leastHops mostHops : Nat) (wanted : UInt32) :
    s.found start leastHops mostHops wanted =
      { state := (s.routesThrough start leastHops mostHops wanted).toArray
        count := .ofNat (s.routesThrough start leastHops mostHops wanted).length } := by
  have hcount : (s.found start leastHops mostHops wanted).count =
      .ofNat (s.routesThrough start leastHops mostHops wanted).length := by
    rw [routesThrough_eq, List.length_map, found, search_eq]
  rw [← hcount, routesThrough]

/-- The routes through a token and their count, with a statement for each and for the search. -/
def discover (s : Snapshot) (start : Token) (leastHops mostHops : Nat) (wanted : UInt32) :
    Logged (Progress (Array Route)) := do
  let least := Nat.max leastHops minHops
  let most := Nat.min mostHops maxHops
  let found := s.found start leastHops mostHops wanted
  Logged.note .debug s!"find routes circular against token {start}, {least} to {most} hops"
  Logged.noteEach .trace (fun r => s!"found route: {r.symbols}") found.state.toList
  Logged.noteIf (0 < wanted && wanted ≤ found.count) .trace
    s!"route count limit reached ({wanted})"
  Logged.note .debug s!"found {found.count} routes circular against token {start}"
  return found

theorem value_discover (s : Snapshot) (start : Token) (leastHops mostHops : Nat)
    (wanted : UInt32) :
    (s.discover start leastHops mostHops wanted).value =
      s.found start leastHops mostHops wanted := rfl

end Snapshot

/-- The routes through a token, as asked by a caller who may lack a snapshot or a callback. -/
def discoverFor (snapshot : Option Snapshot) (callback : Bool) (start : Token)
    (leastHops mostHops : Nat) (wanted : UInt32) :
    Logged (Except DiscoveryError (Snapshot.Progress (Array Route))) :=
  if !callback then pure (.error .noCallback)
  else
    match snapshot with
    | none => pure (.error .noSnapshot)
    | some s => do
      let found ← s.discover start leastHops mostHops wanted
      return .ok found

end PoolArbitrage
