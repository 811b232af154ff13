import Mathlib
import PoolArbitrage.Script.Session

/-!
# Attributes are read as they are written

An argument is converted to the type of its parameter. What fits and can be converted becomes a
datum of the type, in its range (`Ty.holds_convert`).

An attribute is *lawful* when what is read and put back changes nothing, when what is written is
read back, and when a part is of the class that the attribute says (`Attribute.Lawful`). An
attribute is a codec and a field, or only shown; as the codecs are lawful, so is each attribute of
each class (`Attribute.lawfulOn_attributes`). The elements of a list are read and put back in the
same way (`Object.elements_withElements_set`).

**Parts.** A way leads through attributes and list positions. So a part put back where it was found
changes nothing (`Object.withPart_part`), and a part exchanged for another of its class is found at
the end of the same way (`Object.part?_withPart`). Both are by induction on the way.
-/

namespace PoolArbitrage.Script

/-! ## Data of a type -/

/-- The datum is one that a script can name: a member is one its enumeration has. The moment is
left out, since nothing is known of it. -/
def Datum.Known : Datum → Prop
  | .member e i => i < e.members.length
  | .moment => False
  | _ => True

namespace Ty

variable {t : Ty} {d e : Datum} {ts : List Ty} {ds es : List Datum}

/-- **What fits and can be converted becomes a datum of the type.** -/
theorem holds_convert (hknown : d.Known) (hfits : t.fits d) (h : t.convert d = .ok e) :
    t.Holds e := by
  cases t <;> cases d <;>
    simp_all [fits, convert, integer?, Datum.Known] <;> grind [Holds]

/-- All data are of their types once they are converted. -/
theorem forall₂_holds_convertAll (hknown : ∀ d ∈ ds, d.Known) (hfits : fitAll ts ds)
    (h : convertAll ts ds = .ok es) : List.Forall₂ Holds ts es := by
  induction ts, ds using fitAll.induct generalizing es with
  | case1 =>
    cases h
    exact .nil
  | case2 t ts d ds ih =>
    obtain ⟨hd, hds⟩ := List.forall_mem_cons.1 hknown
    obtain ⟨hfit, hfits⟩ := Bool.and_eq_true_iff.1 hfits
    rw [convertAll] at h
    cases hconvert : t.convert d with
    | error e =>
      rw [hconvert] at h
      cases h
    | ok e =>
      cases hrest : convertAll ts ds with
      | error e' =>
        rw [hconvert, hrest] at h
        cases h
      | ok es' =>
        rw [hconvert, hrest] at h
        cases h
        exact .cons (holds_convert hd hfit hconvert) (ih hds hfits hrest)
  | case3 => simp [fitAll] at hfits

end Ty

/-! ## Lawful attributes -/

/-- An object of the class is the value found in it, wrapped. -/
theorem Shape.wrap_of_view {σ : Type} (shape : Shape σ) {o : Object} {s : σ}
    (ho : o.cls = shape.cls) (h : shape.view o = some s) : shape.wrap s = o := by
  obtain ⟨t, rfl⟩ := shape.exists_wrap o ho
  rw [shape.view_wrap] at h
  rw [Option.some.inj h]

namespace Attribute

variable {σ τ : Type} {f : Attribute σ} {name : String}

/-- A script can write the attribute, or change the part that it is. -/
def Open (f : Attribute σ) : Prop := f.access = .readWrite ∨ ∃ c, f.ty = .object c

/-- **The attribute is read as it is written**, on the values of a domain, which writing does not
lead out of. -/
structure LawfulOn (f : Attribute σ) (domain : σ → Prop) : Prop where
  put_get : ∀ s, domain s → f.put s (f.get s) = s
  get_put : f.Open → ∀ s d, domain s → f.ty.Holds d → f.get (f.put s d) = d
  part : ∀ s o, f.get s = .object o → f.ty = .object o.cls
  stays : ∀ s d, domain s → domain (f.put s d)

/-- The attribute is read as it is written. -/
def Lawful (f : Attribute σ) : Prop := f.LawfulOn fun _ => True

theorem lawful_shown {get : σ → Datum} (h : ∀ s o, get s ≠ .object o) :
    (shown name get).Lawful where
  put_get _ _ := rfl
  get_put := by rintro (h | ⟨c, h⟩) <;> cases h
  part s o hget := absurd hget (h s o)
  stays _ _ _ := trivial

theorem lawful_property {get : σ → Datum} (h : ∀ s o, get s ≠ .object o) :
    (property name get).Lawful where
  put_get _ _ := rfl
  get_put := by rintro (h | ⟨c, h⟩) <;> cases h
  part s o hget := absurd hget (h s o)
  stays _ _ _ := trivial

theorem lawful_field {c : Codec τ} {get : σ → τ} {put : σ → τ → σ}
    (hput : ∀ s, put s (get s) = s) (hget : ∀ s t, get (put s t) = t) :
    (field name c get put).Lawful where
  put_get s _ := by simp [field, c.ofDatum_toDatum, hput]
  get_put _ s d _ hd := by
    obtain ⟨t, hread, rfl⟩ := c.toDatum_ofDatum hd
    simp [field, hread, hget]
  part s o h := c.cls_eq (get s) o h
  stays _ _ _ := trivial

/-- A part is a field that a script may not replace; its laws are those of the field. -/
theorem lawful_part {shape : Shape τ} {get : σ → τ} {put : σ → τ → σ}
    (hput : ∀ s, put s (get s) = s) (hget : ∀ s t, get (put s t) = t) :
    (part name shape get put).Lawful :=
  have h : (field name (.object shape) get put).Lawful := lawful_field hput hget
  { put_get := h.put_get
    get_put := fun _ => h.get_put (.inl rfl)
    part := h.part
    stays := h.stays }

/-- A lawful attribute of a value is lawful on the objects that hold such a value. -/
theorem Lawful.lift (hf : f.Lawful) (shape : Shape σ) :
    (f.lift shape).LawfulOn (·.cls = shape.cls) where
  put_get o ho := by
    obtain ⟨s, rfl⟩ := shape.exists_wrap o ho
    simp [Attribute.lift, shape.view_wrap, hf.put_get s trivial]
  get_put hopen o d ho hd := by
    obtain ⟨s, rfl⟩ := shape.exists_wrap o ho
    simp only [Attribute.lift, shape.view_wrap, Option.elim_some]
    exact hf.get_put hopen s d trivial hd
  part o p h := by
    cases hs : shape.view o with
    | none => simp [Attribute.lift, hs] at h
    | some s =>
      simp only [Attribute.lift, hs, Option.elim_some] at h
      exact hf.part s p h
  stays o d ho := by
    obtain ⟨s, rfl⟩ := shape.exists_wrap o ho
    simp [Attribute.lift, shape.view_wrap, shape.cls_wrap]

theorem lawfulOn_liftAll {fs : List (Attribute σ)} (hfs : ∀ f ∈ fs, f.Lawful) (shape : Shape σ) :
    ∀ f ∈ liftAll shape fs, f.LawfulOn (·.cls = shape.cls) := by
  intro g hg
  obtain ⟨f, hf, rfl⟩ := List.mem_map.1 hg
  exact (hfs f hf).lift shape

/-! ## The attributes of all classes -/

theorem lawful_poolAttributes : ∀ f ∈ poolAttributes, f.Lawful := by
  simp only [poolAttributes, List.forall_mem_cons]
  refine ⟨?_, ?_, ?_, ?_, nofun⟩ <;> exact lawful_field (fun _ => rfl) fun _ _ => rfl

theorem lawful_hopAttributes : ∀ f ∈ hopAttributes, f.Lawful := by
  simp only [hopAttributes, List.forall_mem_cons]
  refine ⟨?_, ?_, ?_, ?_, ?_, nofun⟩ <;> exact lawful_field (fun _ => rfl) fun _ _ => rfl

theorem lawful_recordAttributes : ∀ f ∈ recordAttributes, f.Lawful := by
  simp only [recordAttributes, List.forall_mem_cons]
  refine ⟨?_, ?_, ?_, ?_, ?_, ?_, ?_, ?_, nofun⟩ <;>
    exact lawful_field (fun _ => rfl) fun _ _ => rfl

theorem lawful_entryAttributes : ∀ f ∈ entryAttributes, f.Lawful := by
  simp only [entryAttributes, List.forall_mem_cons]
  refine ⟨?_, ?_, ?_, ?_, ?_, ?_, ?_, nofun⟩ <;> exact lawful_shown fun _ _ h => by cases h

theorem lawful_swapAttributes : ∀ f ∈ swapAttributes, f.Lawful := by
  simp only [swapAttributes, List.forall_mem_cons]
  exact ⟨lawful_shown (fun _ _ h => by cases h), lawful_shown (fun _ _ h => by cases h),
    lawful_property (fun _ _ h => by cases h), nofun⟩

theorem lawful_costParameterAttributes : ∀ f ∈ costParameterAttributes, f.Lawful := by
  simp only [costParameterAttributes, List.forall_mem_cons]
  refine ⟨?_, ?_, ?_, nofun⟩ <;> exact lawful_field (fun _ => rfl) fun _ _ => rfl

theorem lawful_costBreakdownAttributes : ∀ f ∈ costBreakdownAttributes, f.Lawful := by
  simp only [costBreakdownAttributes, List.forall_mem_cons]
  refine ⟨?_, ?_, ?_, ?_, ?_, ?_, ?_, nofun⟩ <;> exact lawful_shown fun _ _ h => by cases h

theorem lawful_assessmentAttributes : ∀ f ∈ assessmentAttributes, f.Lawful := by
  simp only [assessmentAttributes, List.forall_mem_cons]
  refine ⟨?_, ?_, ?_, ?_, ?_, nofun⟩ <;> exact lawful_shown fun _ _ h => by cases h

theorem lawful_evaluationAttributes : ∀ f ∈ evaluationAttributes, f.Lawful := by
  simp only [evaluationAttributes, List.forall_mem_cons]
  refine ⟨?_, lawful_part (fun _ => rfl) fun _ _ => rfl, ?_, ?_, ?_, ?_, ?_, nofun⟩ <;>
    exact lawful_shown fun _ _ h => by cases h

theorem lawful_constraintAttributes : ∀ f ∈ constraintAttributes, f.Lawful := by
  simp only [constraintAttributes, List.forall_mem_cons]
  refine ⟨?_, ?_, ?_, ?_, ?_, ?_, ?_, ?_, ?_, ?_, ?_, ?_, ?_, ?_, ?_, nofun⟩ <;>
    exact lawful_field (fun _ => rfl) fun _ _ => rfl

theorem lawful_opportunityAttributes : ∀ f ∈ opportunityAttributes, f.Lawful := by
  simp only [opportunityAttributes, List.forall_mem_cons]
  refine ⟨lawful_part (fun _ => rfl) fun _ _ => rfl, ?_, ?_, ?_, ?_, ?_, ?_, ?_, ?_,
    lawful_part (fun _ => rfl) fun _ _ => rfl, ?_, ?_, ?_, ?_,
    lawful_part (fun _ => rfl) fun _ _ => rfl, ?_, lawful_property (fun _ _ h => by cases h),
    nofun⟩ <;>
    exact lawful_shown fun _ _ h => by cases h

theorem lawful_reportAttributes : ∀ f ∈ reportAttributes, f.Lawful := by
  simp only [reportAttributes, List.forall_mem_cons]
  refine ⟨lawful_part (fun _ => rfl) fun _ _ => rfl, ?_, ?_, ?_, ?_, ?_, ?_, ?_, ?_, ?_,
    lawful_part (fun _ => rfl) fun _ _ => rfl, nofun⟩ <;>
    exact lawful_shown fun _ _ h => by cases h

/-- **Each attribute of each class is lawful** on the objects of the class. -/
theorem lawfulOn_attributes (c : Class) : ∀ f ∈ attributes c, f.LawfulOn (·.cls = c) := by
  cases c with
  | pool => exact lawfulOn_liftAll lawful_poolAttributes .pool
  | hop => exact lawfulOn_liftAll lawful_hopAttributes .hop
  | record => exact lawfulOn_liftAll lawful_recordAttributes .record
  | entry => exact lawfulOn_liftAll lawful_entryAttributes .entry
  | swap => exact lawfulOn_liftAll lawful_swapAttributes .swap
  | costParameters => exact lawfulOn_liftAll lawful_costParameterAttributes .costParameters
  | costBreakdown => exact lawfulOn_liftAll lawful_costBreakdownAttributes .costBreakdown
  | assessment => exact lawfulOn_liftAll lawful_assessmentAttributes .assessment
  | evaluation => exact lawfulOn_liftAll lawful_evaluationAttributes .evaluation
  | constraints => exact lawfulOn_liftAll lawful_constraintAttributes .constraints
  | opportunity => exact lawfulOn_liftAll lawful_opportunityAttributes .opportunity
  | report => exact lawfulOn_liftAll lawful_reportAttributes .report
  | _ => nofun

end Attribute

namespace Object

variable {o p q : Object} {f : Attribute Object} {field : String} {i : Nat} {way : List Stretch}

/-- The attribute that an object has of a name is lawful on the objects of its class. -/
theorem lawfulOn_attribute (h : o.attribute? field = some f) : f.LawfulOn (·.cls = o.cls) :=
  Attribute.lawfulOn_attributes o.cls f (List.mem_of_find?_eq_some h)

/-! ## Elements -/

theorem cls_shape_of_listShape? {c : Class} {l : ListShape} (h : listShape? c = some l) :
    l.shape.cls = c := by
  cases c <;> cases h <;> rfl

/-- What a list object holds. -/
theorem exists_wrap_of_listShape? {l : ListShape} (h : listShape? o.cls = some l) :
    ∃ items, l.shape.wrap items = o ∧ o.elements = items.map l.codec.toDatum := by
  obtain ⟨items, hitems⟩ := l.shape.exists_wrap o (cls_shape_of_listShape? h).symm
  refine ⟨items, hitems, ?_⟩
  rw [elements, h, Option.elim_some, ListShape.elements, ← hitems, l.shape.view_wrap,
    Option.getD_some]

@[simp] theorem cls_withElements (o : Object) (ds : List Datum) :
    (o.withElements ds).cls = o.cls := by
  unfold withElements
  cases h : listShape? o.cls with
  | none => rfl
  | some l => exact (l.shape.cls_wrap _).trans (cls_shape_of_listShape? h)

/-- **The elements are put back as they were read.** -/
theorem withElements_elements (o : Object) : o.withElements o.elements = o := by
  cases h : listShape? o.cls with
  | none => rw [withElements, h, Option.elim_none]
  | some l =>
    obtain ⟨items, hitems, helements⟩ := exists_wrap_of_listShape? h
    rw [withElements, h, Option.elim_some, ListShape.ofElements, helements, List.filterMap_map]
    have hread : l.codec.ofDatum ∘ l.codec.toDatum = some := funext l.codec.ofDatum_toDatum
    rw [hread, List.filterMap_some, hitems]

/-- **An element exchanged for a datum of its type is read back.** -/
theorem elements_withElements_set {l : ListShape} (h : listShape? o.cls = some l) {d : Datum}
    (hd : l.codec.ty.Holds d) (i : Nat) :
    (o.withElements (o.elements.set i d)).elements = o.elements.set i d := by
  obtain ⟨items, -, helements⟩ := exists_wrap_of_listShape? h
  obtain ⟨t, -, rfl⟩ := l.codec.toDatum_ofDatum hd
  have hwrap : o.withElements (o.elements.set i (l.codec.toDatum t)) =
      l.shape.wrap (items.set i t) := by
    have hread : l.codec.ofDatum ∘ l.codec.toDatum = some := funext l.codec.ofDatum_toDatum
    rw [withElements, h, Option.elim_some, ListShape.ofElements, helements, ← List.map_set,
      List.filterMap_map, hread, List.filterMap_some]
  rw [hwrap, elements, l.shape.cls_wrap, cls_shape_of_listShape? h, h, Option.elim_some,
    ListShape.elements, l.shape.view_wrap, Option.getD_some, helements, List.map_set]

/-- An element that is an object is of the class of the elements. -/
theorem ty_of_element {l : ListShape} (h : listShape? o.cls = some l) {i : Nat}
    (hi : o.elements[i]? = some (.object p)) : l.codec.ty = .object p.cls := by
  obtain ⟨items, -, helements⟩ := exists_wrap_of_listShape? h
  rw [helements, List.getElem?_map, Option.map_eq_some_iff] at hi
  obtain ⟨t, -, ht⟩ := hi
  exact l.codec.cls_eq t p ht

/-! ## Parts -/

theorem part?_field (hf : o.attribute? field = some f) (hget : f.get o = .object p) :
    o.part? (.field field :: way) = p.part? way := by
  rw [part?, hf]
  simp only [hget]

theorem withPart_field (hf : o.attribute? field = some f) (hget : f.get o = .object p) :
    o.withPart q (.field field :: way) = f.put o (.object (p.withPart q way)) := by
  rw [withPart, hf]
  simp only [hget]

theorem part?_item (hi : o.elements[i]? = some (.object p)) :
    o.part? (.item i :: way) = p.part? way := by
  rw [part?, hi]

theorem withPart_item (hi : o.elements[i]? = some (.object p)) :
    o.withPart q (.item i :: way) =
      o.withElements (o.elements.set i (.object (p.withPart q way))) := by
  rw [withPart, hi]

/-- A way that leads somewhere through an attribute leads through a part. -/
theorem exists_of_part?_field (h : o.part? (.field field :: way) = some q) :
    ∃ f p, o.attribute? field = some f ∧ f.get o = .object p ∧ p.part? way = some q := by
  cases hf : o.attribute? field with
  | none => simp [part?, hf] at h
  | some f =>
    cases hget : f.get o with
    | object p => exact ⟨f, p, rfl, hget, part?_field hf hget ▸ h⟩
    | _ => simp [part?, hf, hget] at h

/-- A way that leads somewhere through a position leads through an element. -/
theorem exists_of_part?_item (h : o.part? (.item i :: way) = some q) :
    ∃ p, o.elements[i]? = some (.object p) ∧ p.part? way = some q := by
  cases hi : o.elements[i]? with
  | none => simp [part?, hi] at h
  | some d =>
    cases d with
    | object p => exact ⟨p, rfl, part?_item hi ▸ h⟩
    | _ => simp [part?, hi] at h

/-- **A part put back where it was found changes nothing.** -/
theorem withPart_part (h : o.part? way = some p) : o.withPart p way = o := by
  induction way generalizing o with
  | nil => exact (Option.some.inj h).symm
  | cons stretch way ih =>
    cases stretch with
    | field name =>
      obtain ⟨f, inner, hf, hget, h⟩ := exists_of_part?_field h
      rw [withPart_field hf hget, ih h, ← hget, (lawfulOn_attribute hf).put_get o rfl]
    | item i =>
      obtain ⟨inner, hi, h⟩ := exists_of_part?_item h
      obtain ⟨hlt, hget⟩ := List.getElem?_eq_some_iff.1 hi
      rw [withPart_item hi, ih h, ← hget, List.set_getElem_self, withElements_elements]

/-- **A part exchanged for another of its class is found where it was put**, and the whole keeps
its class. -/
theorem part?_withPart (h : o.part? way = some p) (hcls : q.cls = p.cls) :
    (o.withPart q way).part? way = some q ∧ (o.withPart q way).cls = o.cls := by
  induction way generalizing o with
  | nil =>
    cases h
    exact ⟨rfl, hcls⟩
  | cons stretch way ih =>
    cases stretch with
    | field name =>
      obtain ⟨f, inner, hf, hget, h⟩ := exists_of_part?_field h
      obtain ⟨hpart, hinner⟩ := ih h
      have hlaw := lawfulOn_attribute hf
      have hty : f.ty = .object inner.cls := hlaw.part o inner hget
      have hholds : f.ty.Holds (.object (inner.withPart q way)) := by
        rw [hty]
        exact hinner
      -- The attribute found by its name is the same, since the class of the whole is.
      have hstays : (f.put o (.object (inner.withPart q way))).cls = o.cls := hlaw.stays o _ rfl
      have hsame : (f.put o (.object (inner.withPart q way))).attribute? name = some f := by
        rw [attribute?, hstays]
        exact hf
      rw [withPart_field hf hget, part?_field hsame (hlaw.get_put (.inr ⟨_, hty⟩) o _ rfl hholds)]
      exact ⟨hpart, hstays⟩
    | item i =>
      obtain ⟨inner, hi, h⟩ := exists_of_part?_item h
      obtain ⟨hpart, hinner⟩ := ih h
      cases hl : listShape? o.cls with
      | none => simp [elements, hl] at hi
      | some l =>
        have hholds : l.codec.ty.Holds (.object (inner.withPart q way)) := by
          rw [ty_of_element hl hi]
          exact hinner
        have hset : (o.withElements
            (o.elements.set i (.object (inner.withPart q way)))).elements[i]? =
              some (.object (inner.withPart q way)) := by
          rw [elements_withElements_set hl hholds,
            List.getElem?_set_self (List.getElem?_eq_some_iff.1 hi).1]
        rw [withPart_item hi, part?_item hset]
        exact ⟨hpart, cls_withElements o _⟩

end Object

end PoolArbitrage.Script
