import Mathlib
import PoolArbitrage.Proofs.Swaps
import PoolArbitrage.Snapshot.Cycles

/-!
# The cycles a search finds

A cycle through a token is a chain of swaps that starts and ends on it, passes it only at the end
and crosses no pool twice (`Snapshot.IsCycle`). The definition says nothing of a walk. What a walk
finds from some path on is told step by step (`Snapshot.Closes`), and the two agree where the
pools have tags of their own (`Snapshot.isCycle_iff_closes`).

**Theorem (`Snapshot.mem_cycles`).** The cycles found are those there are, of the lengths allowed.

**Theorem (`Snapshot.pairwise_cycles`).** They come out in the strictly rising order of their tags,
so none comes out twice. The tags of what is found from a path on begin with those of the path;
the next swap decides, since each pool offers one swap that sells a given token and the swaps
come in the order of the tags.

**Theorem (`Snapshot.search_hands_over_the_cycles`).** Whoever takes the routes gets those of the
cycles, in this order, up to the last one wanted. The count of them is kept in a word, so it is
right unless all cycles are wanted and there are more than the word counts.
-/

namespace PoolArbitrage

namespace Snapshot

variable {s : Snapshot} {start token : Token} {least room : Nat}
variable {path rest c : List Swap} {w : Swap}

/-! ## Cycles -/

/-- **A cycle through a token**: swaps on offer, each selling what the one before bought, back at
the token with the last one and not before, no two of one pool. -/
structure IsCycle (s : Snapshot) (start : Token) (c : List Swap) : Prop where
  offered : ∀ w ∈ c, w ∈ s.swaps
  opens : ∃ w ∈ c.head?, w.sells = start
  chained : c.IsChain fun v w => v.buys = w.sells
  closes : ∃ w ∈ c.getLast?, w.buys = start
  inside : ∀ w ∈ c.dropLast, w.buys ≠ start
  once : (c.map (·.pool)).Nodup

/-- The tags of the pools crossed. -/
def tags (c : List Swap) : List Nat := c.map (·.pool.tag)

theorem nodup_tags_snoc :
    (tags (path ++ [w])).Nodup ↔
      (tags path).Nodup ∧ ∀ v ∈ path, v.pool.tag ≠ w.pool.tag := by
  unfold tags
  rw [List.map_append, List.nodup_append]
  simp

/-! ## Going on from a path -/

/-- A path that has come to a token closes on the start by some more swaps. -/
inductive Closes (s : Snapshot) (start : Token) : List Swap → Token → List Swap → Prop
  | last {path : List Swap} {token : Token} {w : Swap} : w ∈ s.swapsFrom token →
      (∀ v ∈ path, v.pool.tag ≠ w.pool.tag) → w.buys = start → Closes s start path token [w]
  | step {path rest : List Swap} {token : Token} {w : Swap} : w ∈ s.swapsFrom token →
      (∀ v ∈ path, v.pool.tag ≠ w.pool.tag) → w.buys ≠ start →
      Closes s start (path ++ [w]) w.buys rest → Closes s start path token (w :: rest)

namespace Closes

theorem ne_nil (h : Closes s start path token rest) : rest ≠ [] := by
  cases h <;> simp

theorem offered (h : Closes s start path token rest) (hs : s.WellFormed) :
    ∀ w ∈ rest, w ∈ s.swaps := by
  induction h with
  | last hw _ _ =>
    intro v hv
    rw [List.mem_singleton.1 hv]
    exact (hs.mem_swapsFrom.1 hw).1
  | step hw _ _ _ ih =>
    intro v hv
    rcases List.mem_cons.1 hv with rfl | hv
    · exact (hs.mem_swapsFrom.1 hw).1
    · exact ih v hv

theorem opens (h : Closes s start path token rest) (hs : s.WellFormed) :
    ∃ w ∈ rest.head?, w.sells = token := by
  cases h with
  | last hw _ _ => exact ⟨_, rfl, (hs.mem_swapsFrom.1 hw).2⟩
  | step hw _ _ _ => exact ⟨_, rfl, (hs.mem_swapsFrom.1 hw).2⟩

theorem chained (h : Closes s start path token rest) (hs : s.WellFormed) :
    rest.IsChain fun v w => v.buys = w.sells := by
  induction h with
  | last _ _ _ => exact List.isChain_singleton _
  | step _ _ _ hrest ih =>
    refine List.isChain_cons.2 ⟨fun v hv => ?_, ih⟩
    obtain ⟨v', hv', hsells⟩ := hrest.opens hs
    rw [Option.mem_unique hv hv', hsells]

theorem closes (h : Closes s start path token rest) : ∃ w ∈ rest.getLast?, w.buys = start := by
  induction h with
  | last _ _ hback => exact ⟨_, rfl, hback⟩
  | step _ _ _ hrest ih =>
    rwa [List.getLast?_cons_of_ne_nil hrest.ne_nil]

theorem inside (h : Closes s start path token rest) : ∀ w ∈ rest.dropLast, w.buys ≠ start := by
  induction h with
  | last _ _ _ => simp
  | step _ _ hon hrest ih =>
    intro v hv
    rw [List.dropLast_cons_of_ne_nil hrest.ne_nil] at hv
    rcases List.mem_cons.1 hv with rfl | hv
    · exact hon
    · exact ih v hv

theorem once (h : Closes s start path token rest) (hpath : (tags path).Nodup) :
    (tags (path ++ rest)).Nodup := by
  induction h with
  | last _ hfresh _ => exact nodup_tags_snoc.2 ⟨hpath, hfresh⟩
  | step _ hfresh _ _ ih =>
    have hrest := ih (nodup_tags_snoc.2 ⟨hpath, hfresh⟩)
    rwa [List.append_assoc, List.singleton_append] at hrest

/-- A chain with all that a closing chain has is one. -/
theorem of_chain (hs : s.WellFormed) (hoffered : ∀ w ∈ rest, w ∈ s.swaps)
    (hopens : ∃ w ∈ rest.head?, w.sells = token)
    (hchained : rest.IsChain fun v w => v.buys = w.sells)
    (hcloses : ∃ w ∈ rest.getLast?, w.buys = start) (hinside : ∀ w ∈ rest.dropLast, w.buys ≠ start)
    (honce : (tags (path ++ rest)).Nodup) : Closes s start path token rest := by
  induction rest generalizing path token with
  | nil =>
    obtain ⟨w, hw, -⟩ := hcloses
    cases hw
  | cons w rest ih =>
    have hw : w ∈ s.swapsFrom token := by
      obtain ⟨v, hv, hsells⟩ := hopens
      cases hv
      exact hs.mem_swapsFrom.2 ⟨hoffered w List.mem_cons_self, hsells⟩
    have honce' : (tags (path ++ [w] ++ rest)).Nodup := by
      rwa [List.append_assoc, List.singleton_append]
    have hfresh : ∀ v ∈ path, v.pool.tag ≠ w.pool.tag := by
      rw [tags, List.map_append] at honce'
      exact (nodup_tags_snoc.1 (List.nodup_append.1 honce').1).2
    cases rest with
    | nil =>
      obtain ⟨v, hv, hback⟩ := hcloses
      cases hv
      exact .last hw hfresh hback
    | cons v rest =>
      obtain ⟨hlink, hrest⟩ := List.isChain_cons_cons.1 hchained
      refine .step hw hfresh (hinside w List.mem_cons_self) (ih ?_ ?_ hrest ?_ ?_ honce')
      · exact fun u hu => hoffered u (List.mem_cons_of_mem _ hu)
      · exact ⟨v, rfl, hlink.symm⟩
      · rwa [List.getLast?_cons_cons] at hcloses
      · exact fun u hu => hinside u (List.mem_cons_of_mem _ hu)

end Closes

/-! ## Cycles and closing chains -/

/-- Pools are told apart by their tags. -/
theorem WellFormed.nodup_tags_iff (h : s.WellFormed) (hc : ∀ w ∈ c, w ∈ s.swaps) :
    (tags c).Nodup ↔ (c.map (·.pool)).Nodup := by
  have htags : tags c = (c.map (·.pool)).map (·.tag) := by
    rw [tags, List.map_map]
    rfl
  rw [htags]
  refine ⟨List.Nodup.of_map _, fun hpools => hpools.map_on fun p hp q hq htag => ?_⟩
  obtain ⟨v, hv, rfl⟩ := List.mem_map.1 hp
  obtain ⟨w, hw, rfl⟩ := List.mem_map.1 hq
  exact h.eq_of_tag_eq (h.pool_mem (hc v hv)) (h.pool_mem (hc w hw)) htag

/-- **A cycle is a chain that closes on the start from nowhere.** -/
theorem isCycle_iff_closes (h : s.WellFormed) : s.IsCycle start c ↔ Closes s start [] start c := by
  constructor
  · intro hc
    obtain ⟨hoffered, hopens, hchained, hcloses, hinside, honce⟩ := hc
    refine .of_chain h hoffered hopens hchained hcloses hinside ?_
    rwa [List.nil_append, h.nodup_tags_iff hoffered]
  · intro hc
    have honce := hc.once List.nodup_nil
    rw [List.nil_append, h.nodup_tags_iff (hc.offered h)] at honce
    exact ⟨hc.offered h, hc.opens h, hc.chained h, hc.closes, hc.inside, honce⟩

/-! ## The walk -/

/-- What a walk makes of its next swap, given what it finds beyond it. -/
theorem mem_branch {onward : List (List Swap)} :
    (c ∈ if path.any (·.pool.tag == w.pool.tag) then []
      else if w.buys = start then if least ≤ path.length + 1 then [path ++ [w]] else []
      else onward) ↔
    (∀ v ∈ path, v.pool.tag ≠ w.pool.tag) ∧
      (w.buys = start ∧ least ≤ path.length + 1 ∧ c = path ++ [w] ∨
        w.buys ≠ start ∧ c ∈ onward) := by
  have hany : path.any (·.pool.tag == w.pool.tag) = true ↔
      ¬ ∀ v ∈ path, v.pool.tag ≠ w.pool.tag := by
    simp
  by_cases hfresh : ∀ v ∈ path, v.pool.tag ≠ w.pool.tag
  · rw [if_neg (mt hany.1 (not_not_intro hfresh)), and_iff_right hfresh]
    by_cases hback : w.buys = start
    · by_cases hleast : least ≤ path.length + 1 <;> simp [hback, hleast]
    · simp [hback]
  · rw [if_pos (hany.2 hfresh)]
    simp [hfresh]

theorem mem_walk_succ :
    c ∈ s.walk start least (room + 1) path token ↔
      ∃ w ∈ s.swapsFrom token, (∀ v ∈ path, v.pool.tag ≠ w.pool.tag) ∧
        (w.buys = start ∧ least ≤ path.length + 1 ∧ c = path ++ [w] ∨
          w.buys ≠ start ∧ c ∈ s.walk start least room (path ++ [w]) w.buys) := by
  rw [walk, List.mem_flatMap]
  simp only [mem_branch]

/-- **A walk finds the chains that close on the start** within the room it has and are long
enough. -/
theorem mem_walk :
    c ∈ s.walk start least room path token ↔
      ∃ rest, Closes s start path token rest ∧ c = path ++ rest ∧ rest.length ≤ room ∧
        least ≤ c.length := by
  induction room generalizing path token with
  | zero =>
    constructor
    · intro hc
      cases hc
    · intro hfound
      obtain ⟨rest, hrest, -, hroom, -⟩ := hfound
      exact absurd (List.eq_nil_of_length_eq_zero (Nat.le_zero.1 hroom)) hrest.ne_nil
  | succ room ih =>
    rw [mem_walk_succ]
    constructor
    · intro hnext
      obtain ⟨w, hw, hfresh, ⟨hback, hleast, rfl⟩ | ⟨hon, hc⟩⟩ := hnext
      · exact ⟨[w], .last hw hfresh hback, rfl, by simp, by simpa using hleast⟩
      · obtain ⟨rest, hrest, rfl, hroom, hleast⟩ := ih.1 hc
        exact ⟨w :: rest, .step hw hfresh hon hrest, by simp, by simpa using hroom, hleast⟩
    · intro hfound
      obtain ⟨rest, hrest, rfl, hroom, hleast⟩ := hfound
      cases hrest with
      | @last _ _ w hw hfresh hback =>
        exact ⟨w, hw, hfresh, .inl ⟨hback, by simpa using hleast, rfl⟩⟩
      | @step _ rest _ w hw hfresh hon hrest =>
        refine ⟨w, hw, hfresh, .inr ⟨hon, ih.2 ⟨rest, hrest, by simp, ?_, hleast⟩⟩⟩
        simpa using hroom

/-- **The cycles found are those there are**, of the lengths allowed. -/
theorem mem_cycles (h : s.WellFormed) {most : Nat} :
    c ∈ s.cycles start least most ↔
      s.IsCycle start c ∧ max least minHops ≤ c.length ∧ c.length ≤ min most maxHops := by
  rw [cycles, mem_walk, isCycle_iff_closes h]
  constructor
  · intro hfound
    obtain ⟨rest, hrest, rfl, hroom, hleast⟩ := hfound
    exact ⟨hrest, hleast, hroom⟩
  · intro hcycle
    obtain ⟨hc, hleast, hmost⟩ := hcycle
    exact ⟨c, hc, rfl, hmost, hleast⟩

/-! ## The order -/

/-- What a walk finds beyond a swap begins with the path and the swap. -/
theorem exists_append_of_mem_branch
    (h : c ∈ if path.any (·.pool.tag == w.pool.tag) then []
      else if w.buys = start then if least ≤ path.length + 1 then [path ++ [w]] else []
      else s.walk start least room (path ++ [w]) w.buys) :
    ∃ rest, c = path ++ w :: rest := by
  obtain ⟨-, ⟨-, -, rfl⟩ | ⟨-, hc⟩⟩ := mem_branch.1 h
  · exact ⟨[], rfl⟩
  · obtain ⟨rest, -, rfl, -, -⟩ := mem_walk.1 hc
    exact ⟨rest, by simp⟩

/-- **A walk finds its chains in the strictly rising order of their tags.** -/
theorem pairwise_walk (h : s.WellFormed) :
    (s.walk start least room path token).Pairwise fun c d => tags c < tags d := by
  induction room generalizing path token with
  | zero => exact List.Pairwise.nil
  | succ room ih =>
    rw [walk, List.pairwise_flatMap]
    refine ⟨fun w _ => ?_, ?_⟩
    · split_ifs
      · exact List.Pairwise.nil
      · exact List.pairwise_singleton _ _
      · exact List.Pairwise.nil
      · exact ih
    · refine (h.pairwise_swapsFrom token).imp fun hvw c hc d hd => ?_
      -- Both begin with the path; the next swap decides.
      obtain ⟨cs, rfl⟩ := exists_append_of_mem_branch hc
      obtain ⟨ds, rfl⟩ := exists_append_of_mem_branch hd
      simp only [tags, List.map_append, List.map_cons]
      exact List.append_left_lt (List.cons_lt_cons_iff.2 (.inl hvw))

theorem pairwise_cycles (h : s.WellFormed) (start : Token) (least most : Nat) :
    (s.cycles start least most).Pairwise fun c d => tags c < tags d :=
  pairwise_walk h

/-! ## Handing over -/

/-- The count of what is handed over is right just where some only are wanted or all can be
counted. -/
theorem toNat_count_eq_iff {α : Type} (wanted : UInt32) (all : List α) :
    (UInt32.ofNat (Progress.wantedOf wanted all).length).toNat =
        (Progress.wantedOf wanted all).length ↔
      wanted ≠ 0 ∨ all.length < UInt32.size := by
  rw [UInt32.toNat_ofNat', Nat.mod_eq_iff_lt (by decide), Progress.wantedOf]
  by_cases hall : wanted = 0
  · rw [if_pos hall]
    exact ⟨.inr, fun h => h.resolve_left (not_not_intro hall)⟩
  · rw [if_neg hall]
    refine iff_of_true ?_ (.inl hall)
    exact (List.length_take_le ..).trans_lt wanted.toNat_lt

/-- **A search hands over the cycles through a token**, those of the lengths allowed and no others,
each once, in the strictly rising order of their tags, up to the last one wanted. It counts what it
has handed over modulo the word, so the count is right just where some only are wanted or all can
be counted. -/
theorem search_hands_over_the_cycles (steps : List FeedStep) (start : Token) (least most : Nat) :
    ∃ cycles : List (List Swap),
      (∀ c, c ∈ cycles ↔
        (ofFeed steps).IsCycle start c ∧
          max least minHops ≤ c.length ∧ c.length ≤ min most maxHops) ∧
      cycles.Pairwise (fun c d => tags c < tags d) ∧
      (∀ c ∈ cycles, ∀ w ∈ c, w.pool.swapFrom w.sells = .ok w) ∧
      ∀ {σ : Type} (take : σ → Route → σ) (state : σ) (wanted : UInt32),
        let handed := if wanted = 0 then cycles else cycles.take wanted.toNat
        let search := (ofFeed steps).search take state start least most wanted
        search =
          { state := (handed.map fun c => c.map (·.hop (ofFeed steps).fees)).foldl take state
            count := .ofNat handed.length } ∧
        (search.count.toNat = handed.length ↔ wanted ≠ 0 ∨ cycles.length < UInt32.size) := by
  have h := wellFormed_ofFeed steps
  refine ⟨(ofFeed steps).cycles start least most, fun c => mem_cycles h, pairwise_cycles h ..,
    fun c hc w hw => ?_, fun take state wanted => ?_⟩
  · exact swapFrom_sells h (((mem_cycles h).1 hc).1.offered w hw)
  · intro handed search
    have hsearch : search = _ := search_eq (ofFeed steps) take state start least most wanted
    refine ⟨hsearch, ?_⟩
    rw [hsearch]
    exact toNat_count_eq_iff wanted ((ofFeed steps).cycles start least most)

end Snapshot

end PoolArbitrage
