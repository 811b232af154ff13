import Mathlib
import PoolArbitrage.Proofs.Methods

/-!
# What a step of a script can change

A step ends in one of three ways (`Session.Ends`). It fails; it answers with a value; or it answers
with the elements of a list. A variable is bound only in the latter two, and before that nothing
happens to the session but that new objects come up and the object that the step is on changes
(`Session.Extends`).

**Theorem (`Session.ends_step`).** Each step ends in one of the three ways, and one that fails
leaves the session as it was. There is a case for each form of step. By the time a step can still
fail it has changed nothing. This is plain for all forms but one: a list is asked for its length and
then for each element, and any of these calls may fail after others succeeded. But to ask changes
nothing, since a part put back where it was found changes nothing (`Session.store_self`).
-/

namespace PoolArbitrage.Script

/-! ## What a step is about -/

/-- The number of the object that a value refers to. -/
def Value.number? : Value → Option Nat
  | .datum _ => none
  | .reference r => some r.object

namespace Step

/-- The variable that gets a value if the step succeeds. -/
def bound? : Step → Option String
  | .make _ _ bound | .call _ _ _ bound | .invoke _ _ _ bound | .read _ _ bound
  | .list _ bound => bound
  | .write .. => none

/-- The variable that the step is on. -/
def on? : Step → Option String
  | .invoke on .. | .read on .. | .write on .. | .list on _ => some on
  | .make .. | .call .. => none

end Step

namespace Session

variable {host : Host} {limit : Level} {s t u : Session} {v w : Value} {st : Step}
variable {o p : Object} {name : String} {subject : Option Nat}

/-- The number of the object that a step is on. -/
def subject? (s : Session) (st : Step) : Option Nat :=
  (st.on?.bind fun name => s.bindings.lookup name).bind Value.number?

/-- An object that the value refers to is there. -/
def Has (s : Session) (v : Value) : Prop := ∀ n ∈ v.number?, n < s.objects.length

/-- A datum refers to no object. -/
theorem has_datum (s : Session) (d : Datum) : s.Has (.datum d) := nofun

/-- **Each variable that refers to an object refers to one that is there.** -/
def Anchored (s : Session) : Prop := ∀ x ∈ s.bindings, s.Has x.2

/-- **All that can happen within a step**: the variables stay, and so do the objects, except that
new ones come up and the one that the step is on may change, but not its class. -/
structure Extends (s t : Session) (subject : Option Nat) : Prop where
  bindings : t.bindings = s.bindings
  object : ∀ n o, s.objects[n]? = some o →
    ∃ p, t.objects[n]? = some p ∧ p.cls = o.cls ∧ (subject ≠ some n → p = o)

/-- **How a step ends.** It fails, and leaves the session as it was; or it answers with a value,
which a variable may be bound to; or it answers with the elements of a list, and a variable may be
bound to their number. -/
inductive Ends (s : Session) (subject : Option Nat) (bound : Option String) :
    Session × Except ScriptError Reply → Prop
  | failed (e : ScriptError) : Ends s subject bound (s, .error e)
  | answered {t : Session} {v : Value} : s.Extends t subject → (s.Anchored → t.Has v) →
      Ends s subject bound (t.bind bound v, .ok (.one v))
  | listed (vs : List Value) : (s.Anchored → ∀ v ∈ vs, s.Has v) →
      Ends s subject bound (s.bind bound (.datum (.int vs.length)), .ok (.many vs))

theorem valueOf?_eq_ok : s.valueOf? name = .ok v ↔ s.bindings.lookup name = some v := by
  unfold valueOf?
  cases s.bindings.lookup name <;> simp

theorem Anchored.has (h : s.Anchored) (hv : s.bindings.lookup name = some v) : s.Has v := by
  obtain ⟨front, back, heq, -⟩ := List.lookup_eq_some_iff.1 hv
  exact h (name, v) (by simp [heq])

namespace Extends

theorem refl (s : Session) (subject : Option Nat) : s.Extends s subject where
  bindings := rfl
  object _ o h := ⟨o, h, rfl, fun _ => rfl⟩

theorem trans (h : s.Extends t subject) (h' : t.Extends u subject) : s.Extends u subject where
  bindings := h'.bindings.trans h.bindings
  object n o ho := by
    obtain ⟨p, hp, hcls, hsame⟩ := h.object n o ho
    obtain ⟨q, hq, hcls', hsame'⟩ := h'.object n p hp
    exact ⟨q, hq, hcls'.trans hcls, fun hn => (hsame' hn).trans (hsame hn)⟩

theorem length_le (h : s.Extends t subject) : s.objects.length ≤ t.objects.length := by
  by_contra hlt
  rw [Nat.not_le] at hlt
  obtain ⟨p, hp, -⟩ := h.object t.objects.length _ (List.getElem?_eq_getElem hlt)
  simp at hp

theorem has (h : s.Extends t subject) (hv : s.Has v) : t.Has v :=
  fun n hn => (hv n hn).trans_le h.length_le

end Extends

/-! ## Inside a step -/

/-- To keep a result makes at most a new object. -/
theorem extends_keep (s : Session) (d : Datum) (subject : Option Nat) :
    s.Extends (s.keep d).1 subject ∧ (s.keep d).1.Has (s.keep d).2 := by
  cases d with
  | object o =>
    refine ⟨⟨rfl, fun n p hp => ⟨p, ?_, rfl, fun _ => rfl⟩⟩, ?_⟩
    · exact List.getElem?_append_left (List.getElem?_eq_some_iff.1 hp).1 ▸ hp
    · intro n hn
      cases hn
      simp [keep]
  | _ => exact ⟨.refl s subject, has_datum s _⟩

/-- What is behind a reference is a part of an object. -/
theorem exists_of_object? {r : Reference} {home : Nat}
    (h : s.object? (.reference r) = some (home, o)) :
    ∃ whole, s.objects[r.object]? = some whole ∧ whole.part? r.way = some o := by
  obtain ⟨p, hderef, heq⟩ := Option.map_eq_some_iff.1 h
  cases heq
  exact Option.bind_eq_some_iff.1 hderef

/-- **What is put back as it was found changes nothing.** -/
theorem store_self {home : Nat} (h : s.object? v = some (home, o)) : s.store v o = s := by
  cases v with
  | datum d => rfl
  | reference r =>
    obtain ⟨whole, hwhole, hpart⟩ := exists_of_object? h
    have hsame : s.objects.modify r.object (·.withPart o r.way) = s.objects := by
      refine List.ext_getElem? fun n => ?_
      rw [List.getElem?_modify]
      split
      · next hn =>
        rw [← hn, hwhole, Option.map_eq_map, Option.map_some, Object.withPart_part hpart]
      · simp
    rw [store, hsame]

/-- **A changed object is put back into the whole it is a part of**, and into no other. -/
theorem extends_store {home : Nat} (h : s.object? v = some (home, o)) (hcls : p.cls = o.cls) :
    s.Extends (s.store v p) v.number? := by
  cases v with
  | datum d => exact .refl s _
  | reference r =>
    obtain ⟨whole, hwhole, hpart⟩ := exists_of_object? h
    refine ⟨rfl, fun n q hq => ?_⟩
    by_cases hn : r.object = n
    · subst hn
      rw [hwhole] at hq
      cases hq
      refine ⟨whole.withPart p r.way, ?_, (Object.part?_withPart hpart hcls).2,
        fun hne => absurd rfl hne⟩
      simp [store, hwhole]
    · refine ⟨q, ?_, rfl, fun _ => rfl⟩
      simp [store, hn, hq]

/-- A part of an object is there if the object is. -/
theorem has_partValue (hv : s.Has v) (stretch : Stretch) (d : Datum) :
    s.Has (partValue v stretch d) := by
  cases v with
  | datum e => exact has_datum s d
  | reference r =>
    cases d with
    | object o => exact hv
    | _ => exact has_datum s _

/-! ## Calls of methods -/

variable {method : String} {args : Session → Except ScriptError (List Datum)}

/-- The last overload is one of those on offer. -/
theorem mem_of_overload {α : Type} {params : α → List Ty} {candidates : List α} {ds es : List Datum}
    {m : α} (h : overload params candidates ds = .ok (m, es)) :
    m ∈ candidates ∧ Ty.fitAll (params m) ds ∧ Ty.convertAll (params m) ds = .ok es := by
  unfold overload at h
  cases hfind : candidates.reverse.find? fun m => Ty.fitAll (params m) ds with
  | none => simp [hfind] at h
  | some k =>
    rw [hfind] at h
    obtain ⟨fs, hconvert, heq⟩ := bind_eq_ok.1 h
    cases heq
    have hfits := List.find?_some (p := fun m => Ty.fitAll (params m) ds) hfind
    exact ⟨List.mem_reverse.1 (List.mem_of_find?_eq_some hfind), hfits, hconvert⟩

/-- **What is called gets data of the types of its parameters.** -/
theorem holds_of_overload {α : Type} {params : α → List Ty} {candidates : List α}
    {ds es : List Datum} {m : α} (hknown : ∀ d ∈ ds, d.Known)
    (h : overload params candidates ds = .ok (m, es)) : List.Forall₂ Ty.Holds (params m) es := by
  obtain ⟨-, hfits, hconvert⟩ := mem_of_overload h
  exact Ty.forall₂_holds_convertAll hknown hfits hconvert

/-- **A call that succeeds** found an object and a method of it; what the method gave was kept, or
is a part of the object. -/
theorem exists_of_invokeOn (h : ((s.invokeOn host v method args).run limit).1 = .ok (t, w)) :
    ∃ home o m ds p d, s.object? v = some (home, o) ∧ m ∈ o.methods home ∧ m.name = method ∧
      m.Gives host limit o ds p d ∧
      if method = "__getitem__" then t = s.store v p ∧ ∃ i, w = partValue v (.item i) d
      else t = ((s.store v p).keep d).1 ∧ w = ((s.store v p).keep d).2 := by
  unfold invokeOn at h
  simp only at h
  split at h
  · cases h
  · next prepared o m ds hprepared =>
    obtain ⟨given, -, hprepared⟩ := bind_eq_ok.1 hprepared
    cases hobject : s.object? v with
    | none => simp [hobject] at hprepared
    | some found =>
      obtain ⟨home, found⟩ := found
      simp only [hobject] at hprepared
      split at hprepared
      · cases hprepared
      · obtain ⟨⟨k, es⟩, hoverload, heq⟩ := bind_eq_ok.1 hprepared
        cases heq
        obtain ⟨hm, hname⟩ := List.mem_filter.1 (mem_of_overload hoverload).1
        rw [run_bind_fst] at h
        cases hgives : ((k.run host o es).run limit).1 with
        | error e =>
          rw [hgives] at h
          cases h
        | ok result =>
          obtain ⟨p, d⟩ := result
          refine ⟨home, o, k, es, p, d, rfl, hm, eq_of_beq hname, hgives, ?_⟩
          rw [hgives] at h
          simp only [beq_iff_eq] at h
          split at h
          · next hitem =>
            cases h
            rw [if_pos hitem]
            exact ⟨rfl, _, rfl⟩
          · next hitem =>
            rw [if_neg hitem]
            have hkept : (s.store v p).keep d = (t, w) := Except.ok.inj h
            rw [hkept]
            exact ⟨rfl, rfl⟩

/-- A call changes at most the object it is on. -/
theorem extends_invokeOn (h : ((s.invokeOn host v method args).run limit).1 = .ok (t, w)) :
    s.Extends t v.number? ∧ (s.Has v → t.Has w) := by
  obtain ⟨home, o, m, ds, p, d, hobject, hm, -, hgives, hend⟩ := exists_of_invokeOn h
  have hstore := extends_store hobject (Object.cls_of_methods hm hgives)
  split at hend
  · obtain ⟨rfl, i, rfl⟩ := hend
    exact ⟨hstore, fun hv => has_partValue (hstore.has hv) (.item i) d⟩
  · obtain ⟨rfl, rfl⟩ := hend
    obtain ⟨hkeep, hhas⟩ := extends_keep (s.store v p) d v.number?
    exact ⟨hstore.trans hkeep, fun _ => hhas⟩

/-- The call for the length changes nothing and gives a number. -/
theorem invokeOn_len (h : ((s.invokeOn host v "__len__" args).run limit).1 = .ok (t, w)) :
    t = s ∧ ∃ n : Nat, w = .datum (.int n) := by
  obtain ⟨home, o, m, ds, p, d, hobject, hm, hname, hgives, hend⟩ := exists_of_invokeOn h
  obtain ⟨rfl, n, rfl⟩ := Object.gives_len hm hname hgives
  rw [if_neg (by decide), store_self hobject] at hend
  exact ⟨hend.1, n, hend.2⟩

/-- The call for an element changes nothing. -/
theorem invokeOn_getitem (h : ((s.invokeOn host v "__getitem__" args).run limit).1 = .ok (t, w)) :
    t = s := by
  obtain ⟨home, o, m, ds, p, d, hobject, hm, hname, hgives, hend⟩ := exists_of_invokeOn h
  rw [Object.gives_getitem hm hname hgives, if_pos rfl, store_self hobject] at hend
  exact hend.1

/-- To go through the elements changes nothing, and gives as many as there are. -/
theorem itemsFrom_ok {i n : Nat} {ws : List Value}
    (h : ((itemsFrom host v s i n).run limit).1 = .ok (t, ws)) :
    t = s ∧ ws.length = n ∧ (s.Has v → ∀ w ∈ ws, s.Has w) := by
  induction n generalizing i ws with
  | zero =>
    cases h
    exact ⟨rfl, rfl, fun _ => nofun⟩
  | succ n ih =>
    rw [itemsFrom, run_bind_fst] at h
    cases hitem : ((s.invokeOn host v "__getitem__" fun _ => .ok [.int i]).run limit).1 with
    | error e =>
      rw [hitem] at h
      cases h
    | ok result =>
      obtain ⟨t', w⟩ := result
      obtain rfl := invokeOn_getitem hitem
      rw [hitem] at h
      obtain ⟨⟨u, rest⟩, hrest, heq⟩ := map_eq_ok.1 h
      cases heq
      obtain ⟨rfl, hlength, hhas⟩ := ih hrest
      refine ⟨rfl, congrArg (· + 1) hlength, fun hv => List.forall_mem_cons.2 ⟨?_, hhas hv⟩⟩
      exact (extends_invokeOn hitem).2 hv

/-! ## Writing -/

/-- **A write that succeeds** converts a value that fits, and puts it into an attribute that is open
to writing. -/
theorem exists_of_written {on field : String} {value : Argument}
    (h : s.written on field value = .ok t) :
    ∃ v home o f given d, s.bindings.lookup on = some v ∧ s.object? v = some (home, o) ∧
      o.attribute? field = some f ∧ f.access = .readWrite ∧ s.argument value = .ok given ∧
      f.ty.fits given ∧ f.ty.convert given = .ok d ∧ t = s.store v (f.put o d) := by
  obtain ⟨v, hv, h⟩ := bind_eq_ok.1 h
  split at h
  · next home o hobject =>
    split at h
    · next f hf =>
      split at h
      · cases h
      · next haccess =>
        obtain ⟨given, hgiven, h⟩ := bind_eq_ok.1 h
        split at h
        · cases h
        · next hfits =>
          obtain ⟨d, hconvert, h⟩ := bind_eq_ok.1 h
          cases h
          exact ⟨v, home, o, f, given, d, valueOf?_eq_ok.1 hv, hobject, hf, not_not.1 haccess,
            hgiven, by simpa using hfits, hconvert, rfl⟩
    · cases h
  · cases h

/-! ## Steps -/

variable {bound : Option String}

theorem ends_conclude (s : Session) (settings : LogSettings) (d : Datum) (bound : Option String) :
    s.Ends subject bound ({ s with settings }.conclude d bound) := by
  obtain ⟨hkeep, hhas⟩ := extends_keep { s with settings } d subject
  exact .answered (⟨hkeep.bindings, hkeep.object⟩ : s.Extends _ subject) fun _ => hhas

theorem ends_make (host : Host) (s : Session) (cls : String) (args : List Argument)
    (bound : Option String) :
    s.Ends subject bound ((s.make host cls args bound).run limit).1 := by
  unfold make
  simp only
  split
  · exact .failed _
  · rw [run_bind_fst, run_pure_fst]
    exact ends_conclude s s.settings _ bound

theorem ends_call (host : Host) (s : Session) (function : String) (args : List Argument)
    (named : List (String × Argument)) (bound : Option String) :
    s.Ends subject bound ((s.call host function args named bound).run limit).1 := by
  unfold call
  simp only
  split
  · exact .failed _
  · rw [run_bind_fst]
    split
    · exact .failed _
    · exact ends_conclude s _ _ bound

theorem ends_invoke (host : Host) (s : Session) (on method : String) (args : List Argument)
    (bound : Option String) :
    s.Ends (s.subject? (.invoke on method args bound)) bound
      ((s.invoke host on method args bound).run limit).1 := by
  unfold invoke
  cases hv : s.valueOf? on with
  | error e => exact .failed e
  | ok v =>
    have hsubject : s.subject? (.invoke on method args bound) = v.number? := by
      simp [subject?, Step.on?, valueOf?_eq_ok.1 hv]
    simp only
    rw [run_bind_fst, hsubject]
    split
    · exact .failed _
    · next t w hresult =>
      obtain ⟨hextends, hhas⟩ := extends_invokeOn hresult
      exact .answered hextends fun h => hhas (h.has (valueOf?_eq_ok.1 hv))

theorem ends_read (s : Session) (on field : String) (bound : Option String) :
    s.Ends subject bound (s.read on field bound) := by
  unfold read
  split
  · exact .failed _
  · next w hread =>
    obtain ⟨v, hv, hread⟩ := bind_eq_ok.1 hread
    refine .answered (.refl s _) fun h => ?_
    split at hread
    · split at hread
      · cases hread
        exact has_partValue (h.has (valueOf?_eq_ok.1 hv)) _ _
      · cases hread
    · cases hread

theorem ends_write (s : Session) (on field : String) (value : Argument) :
    s.Ends (s.subject? (.write on field value)) none (s.write on field value) := by
  unfold write
  split
  · exact .failed _
  · next t hwritten =>
    obtain ⟨v, home, o, f, given, d, hv, hobject, hf, -, -, -, -, rfl⟩ :=
      exists_of_written hwritten
    have hsubject : s.subject? (.write on field value) = v.number? := by
      simp [subject?, Step.on?, hv]
    have hcls : (f.put o d).cls = o.cls := (Object.lawfulOn_attribute hf).stays o d rfl
    rw [hsubject]
    exact .answered (extends_store hobject hcls) fun _ => has_datum _ _

/-- A list may fail at any of its elements, and has changed nothing until then. -/
theorem ends_list (host : Host) (s : Session) (on : String) (bound : Option String) :
    s.Ends subject bound ((s.list host on bound).run limit).1 := by
  unfold list
  cases hv : s.valueOf? on with
  | error e => exact .failed e
  | ok v =>
    simp only
    rw [run_bind_fst]
    split
    · exact .failed _
    · next t w hcounted =>
      obtain ⟨rfl, n, rfl⟩ := invokeOn_len hcounted
      rw [run_bind_fst]
      split
      · exact .failed _
      · next u vs hitems =>
        obtain ⟨rfl, hlength, hhas⟩ := itemsFrom_ok hitems
        have hn : vs.length = n := hlength
        rw [← hn]
        exact .listed vs fun h => hhas (h.has (valueOf?_eq_ok.1 hv))

/-- **Each step ends in one of the three ways.** -/
theorem ends_step (host : Host) (s : Session) (st : Step) (limit : Level) :
    s.Ends (s.subject? st) st.bound? ((s.step host st).run limit).1 := by
  cases st with
  | make cls args bound => exact ends_make host s cls args bound
  | call function args named bound => exact ends_call host s function args named bound
  | invoke on method args bound => exact ends_invoke host s on method args bound
  | read on field bound => exact ends_read s on field bound
  | write on field value => exact ends_write s on field value
  | list on bound => exact ends_list host s on bound

end Session

end PoolArbitrage.Script
