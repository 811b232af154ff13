import Mathlib
import PoolArbitrage.Snapshot

/-!
# What the indexes hold

An index is right when it holds what was put into it, and nothing else. What that means is said
for each kind of index (`PoolIndex.Holds`, `SwapFile.Holds`), and that one more item keeps it so.

**Pools.** Looking an address or a tag up finds the first of the pools with it.

**Swaps.** A file holds the swaps in the order of their keys, so those of one key stand together.
**Theorem (`SwapFile.Holds.range_eq`).** The range of a key is the swaps of that key, in the order
they were filed in, provided that their tags rise in that order.

**Tokens.** A token is inserted where it belongs, once (`pairwise_insertToken`).
-/

namespace PoolArbitrage

/-! ## Pools -/

namespace PoolIndex

variable {i j : PoolIndex} {ps : List PoolEntry} {p : PoolEntry}

/-- The index finds the pools, and no others. -/
structure Holds (i : PoolIndex) (ps : List PoolEntry) : Prop where
  address : ∀ a, i.byAddress.get? a = ps.find? (·.address == a)
  tag : ∀ t, i.byTag.get? t = ps.find? (·.tag == t)

theorem holds_empty : Holds {} [] := ⟨fun _ => rfl, fun _ => rfl⟩

theorem Holds.contains_address (h : i.Holds ps) (a : String) :
    i.byAddress.contains a = true ↔ a ∈ ps.map (·.address) := by
  simp [Table.contains, h.address]

theorem Holds.contains_tag (h : i.Holds ps) (t : Nat) :
    i.byTag.contains t = true ↔ t ∈ ps.map (·.tag) := by
  simp [Table.contains, h.tag]

/-- Where no two pools have one key, the pool found under a key is the pool that has it. -/
theorem find?_key_eq_some_iff {κ : Type} [BEq κ] [LawfulBEq κ] {key : PoolEntry → κ}
    (h : (ps.map key).Nodup) {k : κ} : ps.find? (key · == k) = some p ↔ p ∈ ps ∧ key p = k := by
  constructor
  · intro hfind
    exact ⟨List.mem_of_find?_eq_some hfind, by simpa using List.find?_some hfind⟩
  · intro hp
    obtain ⟨hmem, rfl⟩ := hp
    obtain ⟨q, hq⟩ : ∃ q, ps.find? (key · == key p) = some q := by
      rw [← Option.isSome_iff_exists, List.find?_isSome]
      exact ⟨p, hmem, beq_self_eq_true _⟩
    have hkey : key q = key p := by simpa using List.find?_some hq
    rw [hq, List.inj_on_of_nodup_map h (List.mem_of_find?_eq_some hq) hmem hkey]

/-- A pool is refused exactly where its address or its tag is taken. -/
theorem Holds.file?_eq_none (h : i.Holds ps) :
    i.file? p = none ↔ p.address ∈ ps.map (·.address) ∨ p.tag ∈ ps.map (·.tag) := by
  rw [← h.contains_address, ← h.contains_tag, file?]
  split <;> simp_all

/-- An entry under a key that no pool has becomes the last to be found. -/
theorem get?_insert_eq_find? {κ : Type} [BEq κ] [LawfulBEq κ] {m : Table κ PoolEntry}
    {key : PoolEntry → κ} (hm : ∀ k, m.get? k = ps.find? (key · == k)) (hnew : key p ∉ ps.map key)
    (k : κ) : (m.insert (key p) p).get? k = (ps ++ [p]).find? (key · == k) := by
  rw [List.find?_append, List.find?_singleton]
  by_cases hk : k = key p
  · subst hk
    have hnone : ps.find? (key · == key p) = none := by simpa using hnew
    rw [Table.get?_insert_self, hnone, beq_self_eq_true, if_pos rfl, Option.none_or]
  · have hother : (key p == k) = false := by simpa using Ne.symm hk
    rw [Table.get?_insert_of_ne m hk, hm, hother, if_neg Bool.false_ne_true, Option.or_none]

/-- **An index that takes a pool in holds it as the last.** -/
theorem Holds.file? (h : i.Holds ps) (hfile : i.file? p = some j) : j.Holds (ps ++ [p]) := by
  have hfresh : ¬ (p.address ∈ ps.map (·.address) ∨ p.tag ∈ ps.map (·.tag)) := by
    rw [← h.file?_eq_none, hfile]
    simp
  push Not at hfresh
  rw [PoolIndex.file?] at hfile
  split at hfile
  · cases hfile
  · cases hfile
    exact ⟨get?_insert_eq_find? h.address hfresh.1, get?_insert_eq_find? h.tag hfresh.2⟩

end PoolIndex

/-! ## Swaps -/

namespace SwapFile

variable {key : Swap → List Token} {f : SwapFile key} {ws : List Swap} {u v w : Swap}
variable {k : List Token}

theorem notAfter_iff :
    notAfter key v w = true ↔ key v < key w ∨ key v = key w ∧ v.pool.tag ≤ w.pool.tag := by
  simp [notAfter]

theorem notAfter_total (v w : Swap) : notAfter key v w = true ∨ notAfter key w v = true := by
  simp only [notAfter_iff]
  rcases lt_trichotomy (key v) (key w) with hlt | heq | hgt
  · exact .inl (.inl hlt)
  · rcases Nat.le_total v.pool.tag w.pool.tag with hle | hle
    · exact .inl (.inr ⟨heq, hle⟩)
    · exact .inr (.inr ⟨heq.symm, hle⟩)
  · exact .inr (.inl hgt)

theorem notAfter_trans (huv : notAfter key u v = true) (hvw : notAfter key v w = true) :
    notAfter key u w = true := by
  rw [notAfter_iff] at huv hvw ⊢
  rcases huv with huv | ⟨huv, htag⟩
  · rcases hvw with hvw | ⟨hvw, -⟩
    · exact .inl (lt_trans huv hvw)
    · exact .inl (hvw ▸ huv)
  · rcases hvw with hvw | ⟨hvw, htag'⟩
    · exact .inl (huv ▸ hvw)
    · exact .inr ⟨huv.trans hvw, htag.trans htag'⟩

theorem perm_place (w : Swap) (ws : List Swap) : (place key w ws).Perm (w :: ws) := by
  induction ws with
  | nil => exact List.Perm.refl _
  | cons v ws ih =>
    rw [place]
    split
    · exact (ih.cons v).trans (List.Perm.swap w v ws)
    · exact List.Perm.refl _

/-- A swap put in its place keeps the file in order. -/
theorem pairwise_place (h : ws.Pairwise fun u v => notAfter key u v = true) (w : Swap) :
    (place key w ws).Pairwise fun u v => notAfter key u v = true := by
  induction ws with
  | nil => exact List.pairwise_singleton _ _
  | cons v ws ih =>
    obtain ⟨hv, hws⟩ := List.pairwise_cons.1 h
    rw [place]
    split
    · rename_i hvw
      refine List.pairwise_cons.2 ⟨fun u hu => ?_, ih hws⟩
      rcases List.mem_cons.1 ((perm_place w ws).mem_iff.1 hu) with rfl | hu
      · exact hvw
      · exact hv u hu
    · rename_i hvw
      have hwv : notAfter key w v = true := (notAfter_total v w).resolve_left hvw
      refine List.pairwise_cons.2 ⟨fun u hu => ?_, h⟩
      rcases List.mem_cons.1 hu with rfl | hu
      · exact hwv
      · exact notAfter_trans hwv (hv u hu)

theorem key_le_of_notAfter (h : notAfter key v w = true) : key v ≤ key w := by
  rcases notAfter_iff.1 h with hlt | ⟨heq, -⟩
  · exact le_of_lt hlt
  · exact le_of_eq heq

/-- In a file in order the swaps of a key stand together. -/
theorem takeWhile_dropWhile (h : ws.Pairwise fun u v => notAfter key u v = true) :
    ((ws.dropWhile fun w => key w < k).takeWhile fun w => !(k < key w : Bool)) =
      ws.filter (key · == k) := by
  induction ws with
  | nil => rfl
  | cons v ws ih =>
    obtain ⟨hv, hws⟩ := List.pairwise_cons.1 h
    have hle : ∀ w ∈ ws, key v ≤ key w := fun w hw => key_le_of_notAfter (hv w hw)
    rcases lt_trichotomy (key v) k with hlt | heq | hgt
    · rw [List.dropWhile_cons_of_pos (by simpa using hlt),
        List.filter_cons_of_neg (by simpa using ne_of_lt hlt), ih hws]
    · subst heq
      have hdrop : ws.dropWhile (fun w => key w < key v) = ws := by
        cases ws with
        | nil => rfl
        | cons w ws =>
          exact List.dropWhile_cons_of_neg (by simpa using hle w List.mem_cons_self)
      have hrest := ih hws
      rw [hdrop] at hrest
      rw [List.dropWhile_cons_of_neg (by simp), List.takeWhile_cons_of_pos (by simp),
        List.filter_cons_of_pos (by simp), hrest]
    · have hne : ∀ w ∈ v :: ws, ¬ (key w == k) = true := by
        intro w hw
        rcases List.mem_cons.1 hw with rfl | hw
        · simpa using ne_of_gt hgt
        · simpa using ne_of_gt (lt_of_lt_of_le hgt (hle w hw))
      rw [List.dropWhile_cons_of_neg (by simpa using le_of_lt hgt),
        List.takeWhile_cons_of_neg (by simpa using hgt), List.filter_eq_nil_iff.2 hne]

/-- The file holds the swaps, in the order of their keys. -/
structure Holds (f : SwapFile key) (ws : List Swap) : Prop where
  perm : f.swaps.Perm ws
  ordered : f.swaps.Pairwise fun u v => notAfter key u v = true

theorem holds_empty : Holds ({} : SwapFile key) [] := ⟨List.Perm.refl _, List.Pairwise.nil⟩

theorem Holds.insert (h : f.Holds ws) (w : Swap) : (f.insert w).Holds (ws ++ [w]) where
  perm :=
    (perm_place w f.swaps).trans ((h.perm.cons w).trans (List.perm_append_singleton w ws).symm)
  ordered := pairwise_place h.ordered w

/-- **The range of a key is the swaps of that key**, where their tags rise. -/
theorem Holds.range_eq (h : f.Holds ws)
    (hrises : (ws.filter (key · == k)).Pairwise fun v w => v.pool.tag < w.pool.tag) :
    f.range k = ws.filter (key · == k) := by
  have hperm : (f.swaps.filter (key · == k)).Perm (ws.filter (key · == k)) := h.perm.filter _
  have hnodup : ((ws.filter (key · == k)).map (·.pool.tag)).Nodup :=
    List.pairwise_map.2 (hrises.imp Nat.ne_of_lt)
  have hfile : (f.swaps.filter (key · == k)).Pairwise fun v w => v.pool.tag ≤ w.pool.tag := by
    refine List.Pairwise.imp_of_mem (fun {v w} hv hw hvw => ?_) (h.ordered.filter _)
    have hkv : key v = k := by simpa using (List.mem_filter.1 hv).2
    have hkw : key w = k := by simpa using (List.mem_filter.1 hw).2
    rcases notAfter_iff.1 hvw with hlt | ⟨-, htag⟩
    · exact absurd (hkv.trans hkw.symm) (ne_of_lt hlt)
    · exact htag
  rw [range, takeWhile_dropWhile h.ordered]
  refine List.Perm.eq_of_pairwise (fun v w hv hw hvw hwv => ?_) hfile
    (hrises.imp Nat.le_of_lt) hperm
  exact List.inj_on_of_nodup_map hnodup (hperm.mem_iff.1 hv) hw (Nat.le_antisymm hvw hwv)

end SwapFile

/-- All three files hold the swaps. -/
structure SwapIndex.Holds (i : SwapIndex) (ws : List Swap) : Prop where
  source : i.bySource.Holds ws
  target : i.byTarget.Holds ws
  pair : i.byPair.Holds ws

namespace SwapIndex

variable {i : SwapIndex} {ws : List Swap}

theorem holds_empty : Holds {} [] :=
  ⟨SwapFile.holds_empty, SwapFile.holds_empty, SwapFile.holds_empty⟩

theorem Holds.insert (h : i.Holds ws) (w : Swap) : (i.insert w).Holds (ws ++ [w]) :=
  ⟨h.source.insert w, h.target.insert w, h.pair.insert w⟩

theorem Holds.foldl_insert (h : i.Holds ws) (vs : List Swap) :
    (vs.foldl SwapIndex.insert i).Holds (ws ++ vs) := by
  induction vs generalizing i ws with
  | nil => rwa [List.append_nil]
  | cons v vs ih =>
    have hrest := ih (h.insert v)
    rwa [List.append_assoc, List.singleton_append] at hrest

end SwapIndex

/-! ## Tokens -/

namespace Snapshot

variable {t u : Token} {ts : List Token}

theorem mem_insertToken : u ∈ insertToken t ts ↔ u = t ∨ u ∈ ts := by
  induction ts with
  | nil => simp [insertToken]
  | cons v ts ih =>
    rw [insertToken]
    split_ifs with hlt heq
    · simp
    · subst heq
      simp
    · rw [List.mem_cons, ih, List.mem_cons]
      tauto

/-- A token inserted keeps the tokens ascending, each once. -/
theorem pairwise_insertToken (h : ts.Pairwise (· < ·)) (t : Token) :
    (insertToken t ts).Pairwise (· < ·) := by
  induction ts with
  | nil => exact List.pairwise_singleton _ _
  | cons v ts ih =>
    obtain ⟨hv, hts⟩ := List.pairwise_cons.1 h
    rw [insertToken]
    split_ifs with hlt heq
    · refine List.pairwise_cons.2 ⟨fun u hu => ?_, h⟩
      rcases List.mem_cons.1 hu with rfl | hu
      · exact hlt
      · exact lt_trans hlt (hv u hu)
    · exact h
    · refine List.pairwise_cons.2 ⟨fun u hu => ?_, ih hts⟩
      rcases mem_insertToken.1 hu with rfl | hu
      · exact lt_of_le_of_ne (not_lt.1 hlt) (Ne.symm heq)
      · exact hv u hu

end Snapshot

end PoolArbitrage
