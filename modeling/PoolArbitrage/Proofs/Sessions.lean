import Mathlib
import PoolArbitrage.Proofs.Steps

/-!
# Running scripts

Each step of a script runs from the session that those before it left, whatever became of them
(`Session.getElem?_run`). What each step preserves, a run preserves.

* **Theorem (`Session.run_succeeding`).** The steps that fail can be struck from a script: the
  others give what they gave.
* **Theorem (`Session.lookup_ended`).** A variable keeps its value unless a step that binds it
  succeeds.
* **Theorem (`Session.object_ended`).** An object keeps its class, and stays as it is unless a step
  is on it.
* **Theorem (`Session.anchored_script`).** Each variable of a script that refers to an object refers
  to one that is there.

**References.** What is written to an attribute is read from it through each variable that refers to
the same object (`Session.fieldValue_of_written`).
-/

namespace PoolArbitrage.Script

namespace Session

variable {host : Host} {s t : Session} {v w : Value} {st : Step} {o p : Object} {name : String}
variable {bound : Option String}

/-! ## One step of a run -/

variable {e : ScriptError} {n : Nat}

/-- The step ends in one of the three ways, under whatever log settings are in force. -/
theorem ends_advance (s : Session) (host : Host) (st : Step) :
    s.Ends (s.subject? st) st.bound? ((s.advance host st).after, (s.advance host st).reply) :=
  ends_step host s st s.settings.limit

/-- **A step that fails changes nothing**: no variable, no object and no setting. -/
theorem after_of_failed (h : (s.advance host st).reply = .error e) :
    (s.advance host st).after = s := by
  have hends := ends_advance s host st
  rw [h] at hends
  generalize (s.advance host st).after = after at hends ⊢
  cases hends
  rfl

/-- **To list changes nothing** but the variable that gets the length. -/
theorem after_of_listed {vs : List Value} (h : (s.advance host st).reply = .ok (.many vs)) :
    (s.advance host st).after = s.bind st.bound? (.datum (.int vs.length)) := by
  have hends := ends_advance s host st
  rw [h] at hends
  generalize (s.advance host st).after = after at hends ⊢
  cases hends
  rfl

/-- **What a step leaves** is the session as it was, or one that extends it and has a variable
bound. -/
theorem after_eq_or (s : Session) (host : Host) (st : Step) :
    (s.advance host st).after = s ∨
      ∃ t v, s.Extends t (s.subject? st) ∧ (s.Anchored → t.Has v) ∧
        (s.advance host st).after = t.bind st.bound? v := by
  have hends := ends_advance s host st
  generalize (s.advance host st).after = after, (s.advance host st).reply = reply at hends ⊢
  cases hends with
  | failed e => exact .inl rfl
  | answered hextends hhas => exact .inr ⟨_, _, hextends, hhas, rfl⟩
  | listed vs _ => exact .inr ⟨s, _, .refl s _, fun _ => has_datum s _, rfl⟩

theorem objects_bind (s : Session) (bound : Option String) (v : Value) :
    (s.bind bound v).objects = s.objects := by
  cases bound <;> rfl

theorem lookup_bind_of_ne (h : bound ≠ some name) (s : Session) (v : Value) :
    (s.bind bound v).bindings.lookup name = s.bindings.lookup name := by
  cases bound with
  | none => rfl
  | some other =>
    have hne : (name == other) = false := by
      rw [beq_eq_false_iff_ne]
      rintro rfl
      exact h rfl
    simp [bind, List.lookup_cons, hne]

/-- The objects stay, but for the one that the step is on, and all keep their classes. -/
theorem object_advance (host : Host) (st : Step) (ho : s.objects[n]? = some o) :
    ∃ p, (s.advance host st).after.objects[n]? = some p ∧ p.cls = o.cls ∧
      (s.subject? st ≠ some n → p = o) := by
  rcases after_eq_or s host st with hafter | ⟨t, v, hextends, -, hafter⟩
  · rw [hafter]
    exact ⟨o, ho, rfl, fun _ => rfl⟩
  · rw [hafter, objects_bind]
    exact hextends.object n o ho

/-- **A step changes at most the variable it binds.** -/
theorem lookup_advance (h : st.bound? ≠ some name) :
    (s.advance host st).after.bindings.lookup name = s.bindings.lookup name := by
  rcases after_eq_or s host st with hafter | ⟨t, v, hextends, -, hafter⟩
  · rw [hafter]
  · rw [hafter, lookup_bind_of_ne h, hextends.bindings]

/-- The variable that a step binds gets what the step answers. -/
theorem lookup_advance_bound (hbound : st.bound? = some name)
    (h : (s.advance host st).reply = .ok (.one v)) :
    (s.advance host st).after.bindings.lookup name = some v := by
  have hends := ends_advance s host st
  rw [h, hbound] at hends
  generalize (s.advance host st).after = after at hends ⊢
  cases hends
  exact List.lookup_cons_self

theorem anchored_bind (h : s.Anchored) (hv : s.Has v) (bound : Option String) :
    (s.bind bound v).Anchored := by
  cases bound with
  | none => exact h
  | some name => exact List.forall_mem_cons.2 ⟨hv, h⟩

/-- **No step leaves a variable without its object.** -/
theorem anchored_advance (h : s.Anchored) (host : Host) (st : Step) :
    (s.advance host st).after.Anchored := by
  rcases after_eq_or s host st with hafter | ⟨t, v, hextends, hhas, hafter⟩
  · rwa [hafter]
  · rw [hafter]
    refine anchored_bind (fun x hx => ?_) (hhas h) _
    rw [hextends.bindings] at hx
    exact hextends.has (h x hx)

/-! ## Runs -/

variable {steps : List (Host × Step)}

/-- **Each step is run, whatever became of those before it**, from the session they left. -/
theorem getElem?_run (s : Session) (steps : List (Host × Step)) (i : Nat) :
    (s.run steps)[i]? =
      steps[i]?.map fun step => (s.ended (steps.take i)).advance step.1 step.2 := by
  induction steps generalizing s i with
  | nil => rfl
  | cons step steps ih =>
    cases i with
    | zero => rfl
    | succ i => exact ih _ i

/-- The step was answered. -/
def Record.succeeded (r : Record) : Bool := r.reply.isOk

/-- The steps of a script that succeed. -/
def succeeding (s : Session) : List (Host × Step) → List (Host × Step)
  | [] => []
  | (host, st) :: rest =>
    let record := s.advance host st
    if record.succeeded then (host, st) :: record.after.succeeding rest
    else record.after.succeeding rest

/-- A step that is not answered leaves the session as it was. -/
theorem after_of_not_succeeded (h : ¬(s.advance host st).succeeded) :
    (s.advance host st).after = s := by
  cases hreply : (s.advance host st).reply with
  | error e => exact after_of_failed hreply
  | ok r =>
    rw [Record.succeeded, hreply] at h
    exact absurd rfl h

/-- **The steps that fail can be struck from a script**: the others give what they gave. -/
theorem run_succeeding (s : Session) (steps : List (Host × Step)) :
    s.run (s.succeeding steps) = (s.run steps).filter (·.succeeded) ∧
      s.ended (s.succeeding steps) = s.ended steps := by
  induction steps generalizing s with
  | nil => exact ⟨rfl, rfl⟩
  | cons step steps ih =>
    obtain ⟨host, st⟩ := step
    obtain ⟨hrun, hended⟩ := ih (s.advance host st).after
    by_cases hok : (s.advance host st).succeeded
    · have hsucceeding : s.succeeding ((host, st) :: steps) =
          (host, st) :: (s.advance host st).after.succeeding steps := if_pos hok
      rw [hsucceeding, run, run, List.filter_cons_of_pos hok]
      exact ⟨congrArg _ hrun, hended⟩
    · have hsucceeding : s.succeeding ((host, st) :: steps) =
          (s.advance host st).after.succeeding steps := if_neg hok
      have hafter := after_of_not_succeeded hok
      rw [hsucceeding, run, List.filter_cons_of_neg hok]
      refine ⟨?_, ?_⟩
      · rw [← hrun, hafter]
      · have hcons : s.ended ((host, st) :: steps) = (s.advance host st).after.ended steps := rfl
        rw [hcons, ← hended, hafter]

/-- **No run leaves a variable without its object.** -/
theorem anchored_ended (h : s.Anchored) (steps : List (Host × Step)) :
    (s.ended steps).Anchored := by
  induction steps generalizing s with
  | nil => exact h
  | cons step steps ih => exact ih (anchored_advance h step.1 step.2)

/-- **In a script each variable that refers to an object refers to one that is there.** -/
theorem anchored_script (steps : List (Host × Step)) :
    (({} : Session).ended steps).Anchored := by
  refine anchored_ended (fun x hx => ?_) steps
  cases hx

/-- **A variable keeps its value through a run**, unless a step that binds it succeeds. -/
theorem lookup_ended (h : ∀ step ∈ s.succeeding steps, step.2.bound? ≠ some name) :
    (s.ended steps).bindings.lookup name = s.bindings.lookup name := by
  rw [← (run_succeeding s steps).2]
  generalize s.succeeding steps = steps at h
  induction steps generalizing s with
  | nil => rfl
  | cons step steps ih =>
    obtain ⟨hstep, hsteps⟩ := List.forall_mem_cons.1 h
    exact (ih hsteps).trans (lookup_advance hstep)

/-- **An object keeps its class through a run**, and stays as it is unless a step is on it. -/
theorem object_ended (ho : s.objects[n]? = some o) :
    ∃ p, (s.ended steps).objects[n]? = some p ∧ p.cls = o.cls ∧
      ((∀ i step, steps[i]? = some step → (s.ended (steps.take i)).subject? step.2 ≠ some n) →
        p = o) := by
  induction steps generalizing s o with
  | nil => exact ⟨o, ho, rfl, fun _ => rfl⟩
  | cons step steps ih =>
    obtain ⟨p, hp, hcls, hsame⟩ := object_advance step.1 step.2 ho
    obtain ⟨q, hq, hcls', hsame'⟩ := ih hp
    refine ⟨q, hq, hcls'.trans hcls, fun h => ?_⟩
    have hfirst : p = o := hsame (h 0 step rfl)
    exact (hsame' fun i next hnext => h (i + 1) next hnext).trans hfirst

/-! ## References -/

theorem object?_store {r : Reference} {home : Nat}
    (h : s.object? (.reference r) = some (home, o)) (hcls : p.cls = o.cls) :
    (s.store (.reference r) p).object? (.reference r) = some (home, p) := by
  obtain ⟨q, -, heq⟩ := Option.map_eq_some_iff.1 h
  cases heq
  obtain ⟨whole, hwhole, hpart⟩ := exists_of_object? h
  simp [object?, deref?, store, hwhole, (Object.part?_withPart hpart hcls).1]

/-- What a script may write to is behind a reference. -/
theorem exists_reference {home : Nat} {f : Attribute Object} {field : String}
    (h : s.object? v = some (home, o)) (hf : o.attribute? field = some f)
    (haccess : f.access = .readWrite) : ∃ r, v = .reference r := by
  have hshown : ∀ f, f ∈ attributes .entry ∨ f ∈ attributes .swap → f.access ≠ .readWrite := by
    simp [attributes, liftAll, entryAttributes, swapAttributes, Attribute.lift, Attribute.shown,
      Attribute.property, or_imp, forall_and]
  have hmem : f ∈ attributes o.cls := List.mem_of_find?_eq_some hf
  cases v with
  | reference r => exact ⟨r, rfl⟩
  | datum d =>
    cases d with
    | entry r =>
      obtain ⟨found, -, heq⟩ := Option.map_eq_some_iff.1 h
      cases heq
      exact absurd haccess (hshown f (.inl hmem))
    | swap r =>
      obtain ⟨found, -, heq⟩ := Option.map_eq_some_iff.1 h
      cases heq
      exact absurd haccess (hshown f (.inr hmem))
    | _ => cases h

/-- **What is written is read, through whatever variable refers to the object.** -/
theorem fieldValue_of_written {on other field : String} {value : Argument}
    (hwritten : s.written on field value = .ok t)
    (hsame : s.bindings.lookup other = s.bindings.lookup on)
    (hknown : ∀ d, s.argument value = .ok d → d.Known) :
    ∃ v home o f given d, s.bindings.lookup on = some v ∧ s.object? v = some (home, o) ∧
      o.attribute? field = some f ∧ s.argument value = .ok given ∧ f.ty.convert given = .ok d ∧
      t.fieldValue other field = .ok (partValue v (.field field) d) := by
  obtain ⟨v, home, o, f, given, d, hv, hobject, hf, haccess, hgiven, hfits, hconvert, rfl⟩ :=
    exists_of_written hwritten
  obtain ⟨r, rfl⟩ := exists_reference hobject hf haccess
  have hlaw := Object.lawfulOn_attribute hf
  have hcls : (f.put o d).cls = o.cls := hlaw.stays o d rfl
  have hget : f.get (f.put o d) = d :=
    hlaw.get_put (.inl haccess) o d rfl (Ty.holds_convert (hknown given hgiven) hfits hconvert)
  have hfield : (f.put o d).attribute? field = some f := by
    rw [Object.attribute?, hcls]
    exact hf
  have hother : (s.store (.reference r) (f.put o d)).valueOf? other = .ok (.reference r) :=
    valueOf?_eq_ok.2 (hsame.trans hv)
  refine ⟨.reference r, home, o, f, given, d, hv, hobject, hf, hgiven, hconvert, ?_⟩
  refine bind_eq_ok.2 ⟨.reference r, hother, ?_⟩
  simp only [object?_store hobject hcls, hfield, hget]
  rfl

end Session

end PoolArbitrage.Script
