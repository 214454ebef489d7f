import CivilTime.Proofs.Layout.Items

/-!
# Runs over the items of a layout

A run goes on from item to item until a step fails. What the fields hold in a slot after a run was
left there by the last item that fills the slot, and a run that fails does so in the step at one of
its items. This holds for any kind of cursor, as long as a step changes no slot but that of its item.
-/
namespace CivilTime

/-! ### Slots -/

namespace Fields

/-- The fields hold the same in a slot. -/
def Agree (left right : Fields) : Slot → Prop
  | .era => left.beforeCommonEra = right.beforeCommonEra
  | .year => left.year = right.year
  | .number field => left.number field = right.number field
  | .hour => left.hour = right.hour
  | .halfOfDay => left.pm = right.pm
  | .zone => left.zone = right.zone

theorem Agree.refl (fields : Fields) (slot : Slot) : Agree fields fields slot := by
  cases slot <;> rfl

theorem Agree.trans {first second third : Fields} {slot : Slot} (left : Agree first second slot)
    (right : Agree second third slot) : Agree first third slot := by
  cases slot <;> exact Eq.trans left right

theorem setNumber_agree {fields : Fields} {field : NumberField} {read : Located Int} {slot : Slot}
    (other : some (Slot.number field) ≠ some slot) :
    (fields.setNumber field read).Agree fields slot := by
  cases slot with
  | number slot =>
    have different : slot ≠ field := by
      rintro rfl
      exact other rfl
    simp [Agree, setNumber, different]
  | _ => rfl

end Fields

/-! ### Steps -/

variable {χ : Type} {step : Fields × χ → Item → Except TimeError (Fields × χ)} {items : List Item}
  {item : Item} {state : Fields × χ} {fields after : Fields} {here stop : χ} {slot : Slot}
  {e : TimeError}

/-- A step changes no slot but the one that its item fills. -/
def KeepsOthers (step : Fields × χ → Item → Except TimeError (Fields × χ)) : Prop :=
  ∀ {item fields here after stop}, step (fields, here) item = .ok (after, stop) →
    ∀ {slot}, item.slot? ≠ some slot → after.Agree fields slot

theorem KeepsOthers.run (keeps : KeepsOthers step)
    (run : items.foldlM step (fields, here) = .ok (after, stop)) (slot : Slot)
    (outside : slot ∉ items.filterMap Item.slot?) : after.Agree fields slot := by
  induction items generalizing fields here with
  | nil =>
    cases run
    exact Fields.Agree.refl _ slot
  | cons item items ih =>
    rw [List.foldlM_cons] at run
    obtain ⟨⟨middle, next⟩, first, run⟩ := bind_eq_ok_iff.mp run
    -- Neither the first step nor the later ones fill the slot.
    have notItems : slot ∉ items.filterMap Item.slot? := fun inside =>
      outside (((List.sublist_cons_self item items).filterMap _).subset inside)
    have notItem : item.slot? ≠ some slot := fun filled =>
      outside (List.mem_filterMap.mpr ⟨item, List.mem_cons_self, filled⟩)
    exact (ih run notItems).trans (keeps first notItem)

/-! ### Items of a run -/

/-- The run over the items from a state comes to `item` with the cursor at `here`. -/
def RunMeets (step : Fields × χ → Item → Except TimeError (Fields × χ)) (state : Fields × χ)
    (items : List Item) (item : Item) (here : χ) : Prop :=
  ∃ before after fields, items = before ++ item :: after ∧
    before.foldlM step state = .ok (fields, here)

/-- It does, and no later item fills the same slot. -/
def RunMeetsLast (step : Fields × χ → Item → Except TimeError (Fields × χ)) (state : Fields × χ)
    (items : List Item) (item : Item) (here : χ) : Prop :=
  ∃ before later fields, items = before ++ item :: later ∧
    before.foldlM step state = .ok (fields, here) ∧
    ∀ slot ∈ item.slot?, slot ∉ later.filterMap Item.slot?

theorem runMeets_head : RunMeets step state (item :: items) item state.2 :=
  ⟨[], items, state.1, rfl, rfl⟩

theorem RunMeets.tail {first : Item} {next : Fields × χ} (front : step state first = .ok next)
    (met : RunMeets step next items item here) :
    RunMeets step state (first :: items) item here := by
  obtain ⟨before, rest, fields, rfl, run⟩ := met
  refine ⟨first :: before, rest, fields, rfl, ?_⟩
  rw [List.foldlM_cons]
  exact bind_eq_ok_iff.mpr ⟨next, front, run⟩

theorem foldlM_error (failed : items.foldlM step state = .error e) :
    ∃ item here fields, RunMeets step state items item here ∧
      step (fields, here) item = .error e := by
  induction items generalizing state with
  | nil => cases failed
  | cons item items ih =>
    rw [List.foldlM_cons] at failed
    rcases bind_eq_error_iff.mp failed with failed | ⟨next, front, failed⟩
    · exact ⟨item, state.2, state.1, runMeets_head, failed⟩
    · obtain ⟨later, here, fields, met, fault⟩ := ih failed
      exact ⟨later, here, fields, met.tail front, fault⟩

/-- What the last item of a slot reads is what the run ends with. -/
theorem KeepsOthers.last (keeps : KeepsOthers step)
    (run : items.foldlM step state = .ok (after, stop))
    (met : RunMeetsLast step state items item here) :
    ∃ fields own next, step (fields, here) item = .ok (own, next) ∧
      ∀ slot ∈ item.slot?, after.Agree own slot := by
  obtain ⟨before, later, fields, rfl, start, unfilled⟩ := met
  -- The run passes through the state that the items in front lead to, and there is only one.
  rw [List.foldlM_append] at run
  obtain ⟨middle, front, run⟩ := bind_eq_ok_iff.mp run
  rw [start] at front
  cases front
  rw [List.foldlM_cons] at run
  obtain ⟨⟨own, next⟩, read, rest⟩ := bind_eq_ok_iff.mp run
  exact ⟨fields, own, next, read, fun slot filled => keeps.run rest slot (unfilled slot filled)⟩

theorem exists_runMeetsLast (run : items.foldlM step state = .ok (after, stop))
    (shown : Shows items slot) :
    ∃ item here, RunMeetsLast step state items item here ∧ item.slot? = some slot := by
  induction items generalizing state with
  | nil => cases shown
  | cons first items ih =>
    rw [List.foldlM_cons] at run
    obtain ⟨next, front, run⟩ := bind_eq_ok_iff.mp run
    -- Either a later item fills the slot, or this one is the last.
    by_cases later : Shows items slot
    · obtain ⟨item, here, ⟨before, rest, fields, rfl, start, unfilled⟩, filled⟩ := ih run later
      refine ⟨item, here, ⟨first :: before, rest, fields, rfl, ?_, unfilled⟩, filled⟩
      rw [List.foldlM_cons, front]
      exact start
    · have filled : first.slot? = some slot := by
        rcases List.mem_cons.mp shown with filled | further
        · exact filled.symm
        · exact absurd further later
      refine ⟨first, state.2, ⟨[], items, state.1, rfl, rfl, ?_⟩, filled⟩
      intro other same inside
      obtain rfl : slot = other := Option.some.inj (filled.symm.trans same)
      obtain ⟨item, member, again⟩ := List.mem_filterMap.mp inside
      exact later (List.mem_map.mpr ⟨item, member, again⟩)

end CivilTime
