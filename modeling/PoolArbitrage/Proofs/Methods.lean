import Mathlib
import PoolArbitrage.Proofs.Attributes

/-!
# What methods do to their objects

A method gives a datum and the object afterwards (`Method.Gives`). The method of the value inside an
object gives what it gives on the value (`Method.gives_of_lift`), and the methods of lists put
elements back into the list. So methods keep the class of their object (`Object.cls_of_methods`).

Most methods only ask (`Method.Asks`). Those that a list is read by do, and the length is a number
(`Object.gives_len`, `Object.gives_getitem`).
-/

namespace PoolArbitrage.Script

/-! ## Running logged computations -/

section Running

variable {α β ε : Type} {limit : Level}

theorem run_bind_fst (x : Logged α) (f : α → Logged β) :
    ((x >>= f).run limit).1 = ((f (x.run limit).1).run limit).1 := rfl

theorem run_pure_fst (a : α) : ((pure a : Logged α).run limit).1 = a := rfl

theorem bind_eq_ok {x : Except ε α} {f : α → Except ε β} {b : β} :
    x >>= f = .ok b ↔ ∃ a, x = .ok a ∧ f a = .ok b := by
  cases x with
  | error e => exact ⟨nofun, nofun⟩
  | ok a => exact ⟨fun h => ⟨a, rfl, h⟩, fun ⟨_, ha, h⟩ => Except.ok.inj ha ▸ h⟩

theorem map_eq_ok {x : Except ε α} {f : α → β} {b : β} :
    x.map f = .ok b ↔ ∃ a, x = .ok a ∧ f a = b := by
  cases x with
  | error e => exact ⟨nofun, nofun⟩
  | ok a => exact ⟨fun h => ⟨a, rfl, Except.ok.inj h⟩, fun ⟨_, ha, h⟩ =>
      congrArg _ (Except.ok.inj ha ▸ h)⟩

end Running

/-! ## Methods -/

namespace Method

variable {σ : Type} {host : Host} {limit : Level} {m : Method σ}

/-- What a method comes to. -/
def Gives (m : Method σ) (host : Host) (limit : Level) (s : σ) (args : List Datum) (t : σ)
    (d : Datum) : Prop :=
  ((m.run host s args).run limit).1 = .ok (t, d)

/-- **The method only asks**: it leaves its object as it was. -/
def Asks (m : Method σ) : Prop := ∀ host limit s args t d, m.Gives host limit s args t d → t = s

theorem asks_query (name : String) (params : List Ty)
    (f : σ → List Datum → Except ScriptError Datum) : (query name params f).Asks := by
  intro host limit s args t d h
  obtain ⟨_, -, heq⟩ := map_eq_ok.1 (show (f s args).map _ = _ from h)
  cases heq
  rfl

/-- What a lifted method gives, its method gives on the value inside. -/
theorem gives_of_lift {shape : Shape σ} {o p : Object} {args : List Datum} {d : Datum}
    (h : (m.lift shape).Gives host limit o args p d) :
    ∃ s t, shape.view o = some s ∧ shape.wrap t = p ∧ m.Gives host limit s args t d := by
  simp only [Gives, lift] at h
  split at h
  · cases h
  · next s hview =>
    obtain ⟨⟨t, e⟩, hgives, heq⟩ := map_eq_ok.1
      (show (((m.run host s args).run limit).1).map _ = _ from h)
    cases heq
    exact ⟨s, t, hview, rfl, hgives⟩

end Method

/-! ## The methods of an object -/

namespace Object

open Method

variable {host : Host} {limit : Level} {o p : Object} {args : List Datum} {d : Datum} {home : Nat}
variable {m : Method Object}

/-- A method of the value inside an object keeps the class. -/
theorem cls_of_liftMethods {σ : Type} {shape : Shape σ} {ms : List (Method σ)}
    (hm : m ∈ liftMethods shape ms) (h : m.Gives host limit o args p d) : p.cls = shape.cls := by
  obtain ⟨base, -, rfl⟩ := List.mem_map.1 hm
  obtain ⟨s, t, -, rfl, -⟩ := Method.gives_of_lift h
  exact shape.cls_wrap t

theorem exists_of_indexed {name : String} {params : List Ty}
    {f : Object → List Datum → Nat → Object × Datum}
    (h : (indexed name params f).Gives host limit o args p d) : ∃ n, f o args n = (p, d) := by
  simp only [Method.Gives, indexed] at h
  split at h
  · next n _ => exact ⟨n, Except.ok.inj h⟩
  · cases h

/-- **Methods keep the class of their object.** -/
theorem cls_of_methods (hm : m ∈ o.methods home) (h : m.Gives host limit o args p d) :
    p.cls = o.cls := by
  rcases List.mem_append.1 hm with hm | hm
  · generalize o.cls = c at hm ⊢
    cases c <;> first | exact cls_of_liftMethods hm h | cases hm
  · split at hm
    · simp only [listMethods, List.mem_cons, List.not_mem_nil, or_false] at hm
      rcases hm with rfl | rfl | rfl | rfl | rfl | rfl
      · rw [Method.asks_query _ _ _ _ _ _ _ _ _ h]
      · obtain ⟨n, heq⟩ := exists_of_indexed h
        cases heq
        rfl
      · obtain ⟨n, heq⟩ := exists_of_indexed h
        cases heq
        exact Object.cls_withElements ..
      · obtain ⟨n, heq⟩ := exists_of_indexed h
        cases heq
        exact Object.cls_withElements ..
      · rw [Method.asks_query _ _ _ _ _ _ _ _ _ h]
      · cases h
        exact Object.cls_withElements ..
    · split at hm
      · next hcls => exact (cls_of_liftMethods hm h).trans hcls.symm
      · cases hm

/-- A lifted method asks as its method does, on the objects of the class. -/
theorem eq_of_lift {σ : Type} {shape : Shape σ} {base : Method σ} (hbase : base.Asks)
    (ho : o.cls = shape.cls) (h : (base.lift shape).Gives host limit o args p d) : p = o := by
  obtain ⟨s, t, hview, rfl, hgives⟩ := Method.gives_of_lift h
  rw [hbase _ _ _ _ _ _ hgives]
  exact shape.wrap_of_view ho hview

/-- Only lists and maps are indexed. -/
theorem name_of_classMethods {c : Class} (hm : m ∈ classMethods home c) :
    m.name ≠ "__len__" ∧ m.name ≠ "__getitem__" := by
  have hnames : (classMethods home c).map (·.name) = (classMethods 0 c).map (·.name) := by
    cases c <;> rfl
  have hnone : ∀ n ∈ (classMethods 0 c).map (·.name), n ≠ "__len__" ∧ n ≠ "__getitem__" := by
    cases c <;> decide
  rw [← hnames] at hnone
  exact hnone m.name (List.mem_map_of_mem hm)

/-- **To ask for the length changes nothing**, and the answer is a number. -/
theorem gives_len (hm : m ∈ o.methods home) (hname : m.name = "__len__")
    (h : m.Gives host limit o args p d) : p = o ∧ ∃ n : Nat, d = .int n := by
  rcases List.mem_append.1 hm with hm | hm
  · exact absurd hname (name_of_classMethods hm).1
  · split at hm
    · simp only [listMethods, List.mem_cons, List.not_mem_nil, or_false] at hm
      rcases hm with rfl | rfl | rfl | rfl | rfl | rfl <;>
        simp only [view, query, indexed, String.reduceEq] at hname
      cases h
      exact ⟨rfl, _, rfl⟩
    · split at hm
      · next hcls =>
        obtain ⟨base, hbase, rfl⟩ := List.mem_map.1 hm
        simp only [amountMapMethods, List.mem_cons, List.not_mem_nil, or_false] at hbase
        rcases hbase with rfl | rfl | rfl | rfl | rfl <;>
          simp only [Method.lift, view, query, String.reduceEq] at hname
        refine ⟨eq_of_lift (asks_query _ _ _) hcls h, ?_⟩
        obtain ⟨s, t, -, -, hgives⟩ := Method.gives_of_lift h
        cases hgives
        exact ⟨_, rfl⟩
      · cases hm

/-- **To ask for an element changes nothing.** -/
theorem gives_getitem (hm : m ∈ o.methods home) (hname : m.name = "__getitem__")
    (h : m.Gives host limit o args p d) : p = o := by
  rcases List.mem_append.1 hm with hm | hm
  · exact absurd hname (name_of_classMethods hm).2
  · split at hm
    · simp only [listMethods, List.mem_cons, List.not_mem_nil, or_false] at hm
      rcases hm with rfl | rfl | rfl | rfl | rfl | rfl <;>
        simp only [view, query, indexed, String.reduceEq] at hname
      obtain ⟨n, heq⟩ := exists_of_indexed h
      cases heq
      rfl
    · split at hm
      · next hcls =>
        obtain ⟨base, hbase, rfl⟩ := List.mem_map.1 hm
        simp only [amountMapMethods, List.mem_cons, List.not_mem_nil, or_false] at hbase
        rcases hbase with rfl | rfl | rfl | rfl | rfl <;>
          simp only [Method.lift, view, query, String.reduceEq] at hname
        exact eq_of_lift (asks_query _ _ _) hcls h
      · cases hm

end Object

end PoolArbitrage.Script
