import Mathlib
import PoolArbitrage.Proofs.Candidates

/-!
# How often a route is a candidate

The candidates are built start token by start token. Those of one token are told apart by the pools
they cross, and those of different tokens by the token; so there is one way only for a candidate to
come out again: its start token comes up again. The tokens of a snapshot do not, but nothing keeps a
configuration from listing a token twice, and then its candidates are built twice
(`Scan.listed_twice`).

**Theorem (`Scan.routes_come_as_often_as_their_start`).** Each candidate of a snapshot is built as
often as its start token is listed. If no token is listed twice, no route is built twice, and none
is reported twice: whatever is judged is some of what is built.
-/

namespace PoolArbitrage

/-- What one entry of a list alone gives, and gives once, is given as often as the entry occurs. -/
theorem count_flatMap_of_once {α β : Type} [BEq α] [LawfulBEq α] [BEq β] [LawfulBEq β]
    {f : α → List β} {a : α} {b : β} (hone : (f a).count b = 1)
    (hnone : ∀ a', b ∈ f a' → a' = a) (as : List α) : (as.flatMap f).count b = as.count a := by
  induction as with
  | nil => rfl
  | cons a' as ih =>
    rw [List.flatMap_cons, List.count_append, ih, List.count_cons]
    by_cases ha : a' = a
    · rw [ha, hone, if_pos (beq_self_eq_true a)]
      omega
    · rw [List.count_eq_zero_of_not_mem (mt (hnone a') ha), if_neg (by simpa using ha)]
      omega

namespace Scan

variable {s : Snapshot} {c : Constraints} {ctx : ScanContext} {r : Route} {token : Token}

/-! ## The candidates of a snapshot -/

theorem start?_of_mem_routesFrom (h : s.WellFormed) (hr : r ∈ routesFrom s c token) :
    r.start? = some token := by
  unfold routesFrom at hr
  split at hr
  · exact (h.mem_routesThrough.1 hr).1.start?
  · cases hr

/-- The candidates through one token are told apart by their keys. -/
theorem nodup_keys_routesFrom (h : s.WellFormed) (c : Constraints) (token : Token) :
    ((routesFrom s c token).map Route.key).Nodup := by
  rw [List.Nodup, List.pairwise_map]
  unfold routesFrom
  split
  · exact (h.pairwise_routesThrough ..).imp fun hne heq => hne (congrArg Prod.snd heq)
  · exact List.Pairwise.nil

/-- **A candidate is built as often as its start token is listed.** -/
theorem count_key_candidates (h : s.WellFormed) (hr : r ∈ (candidates s c).value.1) :
    ∃ token, r.start? = some token ∧
      ((candidates s c).value.1.map Route.key).count r.key = (startTokens s c).count token := by
  rw [value_candidates_eq h] at hr ⊢
  obtain ⟨token, -, hfrom⟩ := List.mem_flatMap.1 hr
  have hstart := start?_of_mem_routesFrom h hfrom
  refine ⟨token, hstart, ?_⟩
  rw [List.map_flatMap]
  have hone : ((routesFrom s c token).map Route.key).count r.key = 1 :=
    List.nodup_iff_count_eq_one.1 (nodup_keys_routesFrom h c token) _ (List.mem_map_of_mem hfrom)
  refine count_flatMap_of_once (f := fun token => (routesFrom s c token).map Route.key) hone
    (fun other hother => ?_) _
  obtain ⟨r', hr', hkey⟩ := List.mem_map.1 hother
  have hstart' := start?_of_mem_routesFrom h hr'
  rw [show r'.start? = r.start? from congrArg Prod.fst hkey, hstart] at hstart'
  exact (Option.some.inj hstart').symm

theorem nodup_startTokens (h : s.WellFormed) (hlisted : c.startTokens.Nodup) :
    (startTokens s c).Nodup := by
  unfold startTokens
  split
  · exact h.ascending.imp fun hlt => ne_of_lt hlt
  · exact hlisted

theorem nodup_keys_candidates (h : s.WellFormed) (hlisted : c.startTokens.Nodup) :
    ((candidates s c).value.1.map Route.key).Nodup := by
  refine List.nodup_iff_count_le_one.2 fun key => ?_
  by_cases hkey : key ∈ (candidates s c).value.1.map Route.key
  · obtain ⟨r, hr, rfl⟩ := List.mem_map.1 hkey
    obtain ⟨token, -, hcount⟩ := count_key_candidates h hr
    rw [hcount]
    exact List.nodup_iff_count_le_one.1 (nodup_startTokens h hlisted) token
  · rw [List.count_eq_zero_of_not_mem hkey]
    exact Nat.zero_le 1

/-! ## The opportunities of a scan -/

/-- The limit leaves some of the candidates. -/
theorem examined_sublist (ctx : ScanContext) :
    (examined ctx).Sublist (built ctx ++ ctx.routes) := by
  unfold examined
  simp only
  split
  · exact List.take_sublist ..
  · exact List.Sublist.refl _

/-- Candidates that are all different give opportunities that are, whichever of them are judged. -/
theorem nodup_keys_opportunities (mix : Mixing) (schedule : Schedule)
    (hexamined : ((examined ctx).map Route.key).Nodup) :
    ((withSchedule mix schedule ctx).value.opportunities.map (·.route.key)).Nodup := by
  have hjudged : ((judged schedule ctx).map Route.key).Nodup :=
    hexamined.sublist (judged_sublist.map _)
  have hroutes : ((foundIn mix ctx.constraints (judged schedule ctx)).map (·.route)).Sublist
      (judged schedule ctx) := map_route_foundIn_sublist ..
  have hfound : ((foundIn mix ctx.constraints (judged schedule ctx)).map (·.route.key)).Nodup := by
    have hkeys := hroutes.map Route.key
    rw [List.map_map] at hkeys
    exact hjudged.sublist hkeys
  obtain ⟨kept, hperm, hsub⟩ := opportunities_subperm mix schedule ctx
  exact (hperm.map _).nodup_iff.1 (hfound.sublist (hsub.map _))

/-- **Routes come as often as their start token.** Each candidate built from a snapshot is built as
often as its start token is listed. If the configuration lists no token twice, no two candidates
have one start token and the same pools in the same order; nor have two of the opportunities of a
scan of them, whichever are judged before the deadline and however many are kept. -/
theorem routes_come_as_often_as_their_start (steps : List FeedStep) (c : Constraints) :
    let s := Snapshot.ofFeed steps
    let routes := (candidates s c).value.1
    (∀ r ∈ routes, ∃ token, r.start? = some token ∧
      (routes.map Route.key).count r.key = (startTokens s c).count token) ∧
    (c.startTokens.Nodup →
      (routes.map Route.key).Nodup ∧
      ∀ (mix : Mixing) (schedule : Schedule) (deadline : Deadline),
        let ctx : ScanContext := { snapshot := some s, constraints := c, deadline }
        ((withSchedule mix schedule ctx).value.opportunities.map (·.route.key)).Nodup) := by
  intro s routes
  have hs : s.WellFormed := Snapshot.wellFormed_ofFeed steps
  refine ⟨fun r hr => count_key_candidates hs hr, fun hlisted => ⟨?_, ?_⟩⟩
  · exact nodup_keys_candidates hs hlisted
  · intro mix schedule deadline ctx
    have hsub : (examined ctx).Sublist routes := by
      have hsub := examined_sublist ctx
      rwa [show ctx.routes = [] from rfl, List.append_nil] at hsub
    have hkeys : ((examined ctx).map Route.key).Nodup :=
      (nodup_keys_candidates hs hlisted).sublist (hsub.map _)
    exact nodup_keys_opportunities mix schedule hkeys

/-- Both tokens of the gap listed once: there are two candidates through each, all different, and
the two that pay are. -/
theorem keys_of_either_side :
    let s := Snapshot.ofFeed gapFeed
    let c : Constraints := { defaultAmount := 1000000000, startTokens := ["A", "B"] }
    let routes := (candidates s c).value.1
    let ctx : ScanContext := { snapshot := some s, constraints := c }
    let found := (withSchedule rolling .still ctx).value.opportunities
    routes.length = 4 ∧ (routes.map Route.key).Nodup ∧ found.length = 2 ∧
      (found.map (·.route.key)).Nodup := by
  intro s c routes ctx found
  obtain ⟨-, hdistinct⟩ := routes_come_as_often_as_their_start gapFeed c
  obtain ⟨hroutes, hscans⟩ := hdistinct (by decide)
  have hstarts : Starts ctx := ⟨by decide +kernel, .inl rfl⟩
  refine ⟨by decide +kernel, hroutes, ?_, hscans rolling .still .none⟩
  simp only [found]
  rw [opportunities_eq_rank hstarts rfl, length_rank]
  decide +kernel

/-- **A token listed twice.** The configuration is sound, and the routes through the token are built
and reported twice. -/
theorem listed_twice :
    let s := Snapshot.ofFeed gapFeed
    let c : Constraints := { defaultAmount := 1000000000, startTokens := ["A", "A"] }
    let routes := (candidates s c).value.1
    let ctx : ScanContext := { snapshot := some s, constraints := c }
    let found := (withSchedule rolling .still ctx).value.opportunities
    c.fault? = none ∧ ¬ (routes.map Route.key).Nodup ∧ ¬ (found.map (·.route.key)).Nodup := by
  intro s c routes ctx found
  have hsound : c.fault? = none := by decide +kernel
  refine ⟨hsound, by decide +kernel, ?_⟩
  have hstarts : Starts ctx := ⟨hsound, .inl rfl⟩
  simp only [found]
  rw [opportunities_eq_rank hstarts rfl, ((perm_rank ..).map _).nodup_iff]
  decide +kernel

end Scan

end PoolArbitrage
