import CivilTime.Proofs.Layout.Lookahead
import CivilTime.Proofs.Layout.Spans

/-!
# Texts with bars between the parts

An item fills its slot with a value that depends on its own part of the text alone, and the fields
are not looked at before all items have read. So where bars show which part belongs to which item,
and no two items fill the same slot, the fields that a text gives are told part by part, without
regard to the order of the parts: what they are is said as membership in the list of parts.
-/
namespace CivilTime

/-- Both succeed with the same value, or neither succeeds. -/
def Coincide {α : Type} (left right : Except TimeError α) : Prop :=
  ∀ a, left = .ok a ↔ right = .ok a

namespace Coincide

variable {α β : Type} {left right : Except TimeError α}

theorem refl (result : Except TimeError α) : Coincide result result := fun _ => Iff.rfl

theorem bind {leftNext rightNext : α → Except TimeError β} (first : Coincide left right)
    (rest : ∀ a, Coincide (leftNext a) (rightNext a)) :
    Coincide (left >>= leftNext) (right >>= rightNext) := by
  intro b
  rw [bind_eq_ok_iff, bind_eq_ok_iff]
  exact exists_congr fun a => and_congr (first a) (rest a b)

theorem check {condition : Prop} [Decidable condition] (a : α) (e f : TimeError) :
    Coincide (if condition then .ok a else .error e) (if condition then .ok a else .error f) := by
  intro b
  split <;> simp

theorem locate (position other : Nat) (result : Except TimeError α) :
    Coincide (locate position result) (locate other result) := fun _ =>
  locate_eq_ok_iff.trans locate_eq_ok_iff.symm

end Coincide

/-! ### Fields with the same values -/

theorem map_eq_map_cases {α β : Type} {f : α → β} {left right : Option α}
    (same : left.map f = right.map f) :
    (left = none ∧ right = none) ∨ ∃ a b, left = some a ∧ right = some b ∧ f a = f b := by
  cases left with
  | none => exact .inl ⟨rfl, Option.map_eq_none_iff.mp same.symm⟩
  | some a =>
    obtain ⟨b, held, value⟩ := Option.map_eq_some_iff.mp same.symm
    exact .inr ⟨a, b, rfl, held, value.symm⟩

namespace Fields

variable {left right : Fields} {slot : Slot}

/-- The slot has the same value, wherever it was read. -/
def Same (left right : Fields) : Slot → Prop
  | .era => left.beforeCommonEra = right.beforeCommonEra
  | .year => left.year.map (·.value) = right.year.map (·.value)
  | .number field => (left.number field).map (·.value) = (right.number field).map (·.value)
  | .hour => left.hour.map (fun (cycle, read) => (cycle, read.value))
      = right.hour.map fun (cycle, read) => (cycle, read.value)
  | .halfOfDay => left.pm = right.pm
  | .zone => left.zone.map (·.value) = right.zone.map (·.value)

theorem Same.symm (same : left.Same right slot) : right.Same left slot := by
  cases slot <;> exact Eq.symm same

theorem Same.trans {third : Fields} (first : left.Same right slot) (rest : right.Same third slot) :
    left.Same third slot := by
  cases slot <;> exact Eq.trans first rest

theorem Agree.same (agree : left.Agree right slot) : left.Same right slot := by
  cases slot with
  | era => exact agree
  | halfOfDay => exact agree
  | _ => exact congrArg (Option.map _) agree

theorem same_relocate (fields : Fields) (place : Nat → Nat) (slot : Slot) :
    (fields.relocate place).Same fields slot := by
  cases slot with
  | era => rfl
  | halfOfDay => rfl
  | _ => exact Option.map_map ..

theorem yearNumber_same (same : ∀ slot, left.Same right slot) :
    Coincide left.yearNumber right.yearNumber := by
  have era : left.beforeCommonEra = right.beforeCommonEra := same .era
  rcases map_eq_map_cases (same .year) with ⟨empty, absent⟩ | ⟨read, found, held, taken, value⟩
  · simp only [yearNumber, empty, absent]
    exact .refl _
  · simp only [yearNumber, held, taken, era, value]
    exact .check _ _ _

theorem part_same (same : ∀ slot, left.Same right slot) (field : NumberField)
    (least greatest : Nat) :
    Coincide (left.part field least greatest) (right.part field least greatest) := by
  rcases map_eq_map_cases (same (.number field)) with
    ⟨empty, absent⟩ | ⟨read, found, held, taken, value⟩
  · simp only [part, empty, absent]
    exact .refl _
  · simp only [part, held, taken, value]
    exact .check _ _ _

theorem hourOfDay_same (same : ∀ slot, left.Same right slot) :
    Coincide left.hourOfDay right.hourOfDay := by
  have half : left.pm = right.pm := same .halfOfDay
  rcases map_eq_map_cases (same .hour) with
    ⟨empty, absent⟩ | ⟨⟨cycle, read⟩, ⟨other, found⟩, held, taken, value⟩
  · simp only [hourOfDay, empty, absent, half]
    exact .refl _
  · obtain ⟨rfl, hour⟩ : cycle = other ∧ read.value = found.value := Prod.mk.inj value
    simp only [hourOfDay, held, taken, half, hour]
    exact .check _ _ _

theorem dateTime_same (same : ∀ slot, left.Same right slot) :
    Coincide left.dateTime right.dateTime := by
  refine (yearNumber_same same).bind fun year => (part_same same _ _ _).bind fun month => ?_
  refine (part_same same _ _ _).bind fun day => (hourOfDay_same same).bind fun hour => ?_
  refine (part_same same _ _ _).bind fun minute => (part_same same _ _ _).bind fun second => ?_
  refine (part_same same _ _ _).bind fun millisecond => ?_
  refine (part_same same _ _ _).bind fun microsecond => ?_
  exact (part_same same _ _ _).bind fun nanosecond => .refl _

/-- The instant depends on the values of the fields alone. -/
theorem instant_same (same : ∀ slot, left.Same right slot) (start other : Nat) :
    Coincide (left.instant start) (right.instant other) := by
  refine (dateTime_same same).bind fun t => (Coincide.locate _ _ _).bind fun localTime => ?_
  rcases map_eq_map_cases (same .zone) with ⟨empty, absent⟩ | ⟨zone, found, held, taken, value⟩
  · simp only [empty, absent]
    exact .refl _
  · simp only [held, taken, value]
    exact .check _ _ _

end Fields

/-! ### Steps on their own -/

section Step

variable {layout : Layout} {context : ReadContext} {item : Item} {fields after : Fields}
  {cursor stop : Cursor}

/-- What an item reads does not depend on what was read before. -/
theorem readItem_fields (other : Fields)
    (read : layout.readItem context (fields, cursor) item = .ok (after, stop)) :
    ∃ own, layout.readItem context (other, cursor) item = .ok (own, stop) ∧
      ∀ slot ∈ item.slot?, after.Agree own slot := by
  cases item with
  | number | monthName =>
    obtain ⟨⟨found, next⟩, taken, read⟩ := bind_eq_ok_iff.mp read
    cases read
    refine ⟨other.setNumber _ _, bind_eq_ok_iff.mpr ⟨(found, stop), taken, rfl⟩, ?_⟩
    rintro slot ⟨rfl⟩
    simp only [Fields.Agree, Fields.setNumber, if_true]
  | weekday | literal =>
    obtain ⟨next, taken, read⟩ := bind_eq_ok_iff.mp read
    cases read
    refine ⟨other, bind_eq_ok_iff.mpr ⟨stop, taken, rfl⟩, ?_⟩
    rintro slot ⟨⟩
  -- The others put what they read in one place, if anywhere.
  | _ =>
    obtain ⟨⟨found, next⟩, taken, read⟩ := bind_eq_ok_iff.mp read
    cases read
    refine ⟨_, bind_eq_ok_iff.mpr ⟨(found, stop), taken, rfl⟩, ?_⟩
    rintro slot ⟨⟩ <;> rfl

/-- Nor does it depend on how far in the text it is read. -/
theorem readItem_start {position : Nat} {cs : List Char}
    (read : layout.readItem context (fields, ⟨position, cs⟩) item = .ok (after, stop)) :
    ∃ own left, layout.readItem context ({}, ⟨0, cs⟩) item = .ok (own, left) ∧
      left.rest = stop.rest ∧ ∀ slot ∈ item.slot?, after.Same own slot := by
  obtain ⟨there, read, agree⟩ := readItem_fields {} read
  have shifted : (({}, ⟨position, cs⟩) : Fields × Cursor)
      = stateBehind position ({}, ⟨0, cs⟩) := rfl
  rw [shifted, readItem_behind] at read
  cases first : layout.readItem context ({}, ⟨0, cs⟩) item with
  | error e =>
    rw [first] at read
    cases read
  | ok state =>
    rw [first] at read
    cases read
    exact ⟨state.1, state.2, rfl, rfl, fun slot filled =>
      (agree slot filled).same.trans (Fields.same_relocate _ _ _)⟩

theorem readItem_later {cs : List Char} (fields : Fields) (position : Nat)
    (read : layout.readItem context ({}, ⟨0, cs⟩) item = .ok (after, stop)) :
    ∃ there left, layout.readItem context (fields, ⟨position, cs⟩) item = .ok (there, left) ∧
      left.rest = stop.rest := by
  have moved : layout.readItem context (stateBehind position ({}, ⟨0, cs⟩)) item
      = .ok (stateBehind position (after, stop)) := by
    rw [readItem_behind, read, moved_ok]
  obtain ⟨there, read, -⟩ := readItem_fields fields moved
  exact ⟨there, _, read, rfl⟩

end Step

/-! ### Parts and bars -/

def Item.isLiteral : Item → Bool
  | .literal _ => true
  | _ => false

/-- The layout without items that has a bar as its only fixed text. -/
def Layout.bars : Layout := ⟨[], ["|"]⟩

/-- The items of the parts with a bar between any two. -/
def Layout.barred (parts : List (Item × String)) : Layout :=
  { Layout.bars with items := (parts.map (·.1)).intersperse (.literal 0) }

/-- The texts of the parts with a bar between any two. -/
def barredText (parts : List (Item × String)) : String := "|".intercalate (parts.map (·.2))

theorem toList_barredText_singleton (part : Item × String) :
    (barredText [part]).toList = part.2.toList := by
  simp [barredText]

theorem toList_barredText_cons (part next : Item × String) (parts : List (Item × String)) :
    (barredText (part :: next :: parts)).toList
      = part.2.toList ++ '|' :: (barredText (next :: parts)).toList := by
  simp [barredText, String.toList_intercalate]

/-- Parts of a text that bars tell apart, with no two items for the same slot. -/
structure Divided (parts : List (Item × String)) : Prop where
  items : ∀ part ∈ parts, part.1.isLiteral = false
  texts : ∀ part ∈ parts, '|' ∉ part.2.toList
  distinct : (parts.filterMap (·.1.slot?)).Nodup

instance (parts : List (Item × String)) : Decidable (Divided parts) :=
  decidable_of_iff ((∀ part ∈ parts, part.1.isLiteral = false) ∧
      (∀ part ∈ parts, '|' ∉ part.2.toList) ∧ (parts.filterMap (·.1.slot?)).Nodup)
    ⟨fun ⟨items, texts, distinct⟩ => ⟨items, texts, distinct⟩,
      fun divided => ⟨divided.items, divided.texts, divided.distinct⟩⟩

namespace Divided

variable {part : Item × String} {parts others : List (Item × String)}

theorem perm (divided : Divided parts) (perm : parts.Perm others) : Divided others where
  items part member := divided.items part (perm.mem_iff.mpr member)
  texts part member := divided.texts part (perm.mem_iff.mpr member)
  distinct := (perm.filterMap _).nodup_iff.mp divided.distinct

theorem tail (divided : Divided (part :: parts)) : Divided parts where
  items other member := divided.items other (List.mem_cons_of_mem part member)
  texts other member := divided.texts other (List.mem_cons_of_mem part member)
  distinct := divided.distinct.sublist ((List.sublist_cons_self part parts).filterMap _)

theorem fresh (divided : Divided (part :: parts)) {slot : Slot} (filled : slot ∈ part.1.slot?) :
    slot ∉ parts.filterMap (·.1.slot?) := by
  have distinct := divided.distinct
  rw [List.filterMap_cons, filled] at distinct
  exact (List.nodup_cons.mp distinct).1

end Divided

/-! ### What the parts give -/

section Parts

variable {context : ReadContext} {part : Item × String} {parts others : List (Item × String)}
  {fields middle after own : Fields}

/-- The part on its own is read to its end and gives these fields. -/
def Takes (context : ReadContext) (part : Item × String) (own : Fields) : Prop :=
  ∃ stop, Layout.bars.readItem context ({}, ⟨0, part.2.toList⟩) part.1 = .ok (own, ⟨stop, []⟩)

/-- The part on its own is read to its end, and the fields have the value that it gives. -/
def TakesInto (context : ReadContext) (part : Item × String) (after : Fields) : Prop :=
  ∃ own, Takes context part own ∧ ∀ slot ∈ part.1.slot?, after.Same own slot

/-- The fields have the values that the parts give, and in all other slots those from before. -/
structure Gathers (context : ReadContext) (parts : List (Item × String)) (fields after : Fields) :
    Prop where
  taken : ∀ part ∈ parts, TakesInto context part after
  kept : ∀ slot ∉ parts.filterMap (·.1.slot?), after.Same fields slot

namespace Gathers

theorem nil (fields : Fields) : Gathers context [] fields fields :=
  ⟨nofun, fun slot _ => (Fields.Agree.refl fields slot).same⟩

/-- A part in front adds its own value, which no later part overwrites. -/
theorem cons (divided : Divided (part :: parts)) (first : TakesInto context part middle)
    (unchanged : ∀ slot, part.1.slot? ≠ some slot → middle.Agree fields slot)
    (rest : Gathers context parts middle after) :
    Gathers context (part :: parts) fields after := by
  constructor
  case taken =>
    intro other member
    rcases List.mem_cons.mp member with rfl | later
    · obtain ⟨own, taken, same⟩ := first
      exact ⟨own, taken, fun slot filled =>
        (rest.kept slot (divided.fresh filled)).trans (same slot filled)⟩
    · exact rest.taken other later
  case kept =>
    intro slot outside
    have notRest : slot ∉ parts.filterMap (·.1.slot?) := fun inside =>
      outside (((List.sublist_cons_self part parts).filterMap _).subset inside)
    have notPart : part.1.slot? ≠ some slot := fun filled =>
      outside (List.mem_filterMap.mpr ⟨part, List.mem_cons_self, filled⟩)
    exact (rest.kept slot notRest).trans (unchanged slot notPart).same

/-- The parts say which values there are. -/
theorem unique {other : Fields} (left : Gathers context parts fields after)
    (right : Gathers context parts fields other) (slot : Slot) : after.Same other slot := by
  by_cases filled : slot ∈ parts.filterMap (·.1.slot?)
  · obtain ⟨part, member, held⟩ := List.mem_filterMap.mp filled
    obtain ⟨own, ⟨stop, read⟩, same⟩ := left.taken part member
    obtain ⟨again, ⟨_, reread⟩, equal⟩ := right.taken part member
    rw [read] at reread
    cases reread
    exact (same slot held).trans (equal slot held).symm
  · exact (left.kept slot filled).trans (right.kept slot filled).symm

theorem perm (gathered : Gathers context parts fields after) (perm : parts.Perm others) :
    Gathers context others fields after where
  taken part member := gathered.taken part (perm.mem_iff.mpr member)
  kept slot outside := gathered.kept slot (mt (perm.filterMap _).mem_iff.mp outside)

end Gathers

section Step

variable {ending : List Char} {position : Nat} {stop : Cursor}

theorem readItem_alike (barless : context.Barless) (item : part.1.isLiteral = false)
    (ended : Text.EndsPart ending) (fields : Fields) (position : Nat) :
    ReadAlike (Cursor.LikeBehind ending)
      (Layout.bars.readItem context (fields, ⟨position, part.2.toList⟩) part.1)
      (Layout.bars.readItem context (fields, ⟨position, part.2.toList ++ ending⟩) part.1) := by
  have like : Cursor.Like ending ⟨position, part.2.toList⟩ ⟨position, part.2.toList ++ ending⟩ :=
    ⟨rfl, Text.like_append ended _⟩
  refine readItem_like like (fun _ => barless) ?_ fields
  intro index fixed
  rw [fixed] at item
  cases item

/-- An item that reads as far as a bar or the end has read its own part of the text, just as it does
on its own. -/
theorem takesInto_of_readItem (barless : context.Barless) (item : part.1.isLiteral = false)
    (text : '|' ∉ part.2.toList) (ended : Text.EndsPart ending)
    (read : Layout.bars.readItem context (fields, ⟨position, part.2.toList ++ ending⟩) part.1
      = .ok (after, stop))
    (ends : Text.EndsPart stop.rest) :
    stop.rest = ending ∧ TakesInto context part after := by
  have alike := readItem_alike barless item ended fields position
  rw [read] at alike
  obtain ⟨⟨_, short⟩, alone, rfl, behind⟩ := alike.ok_left
  obtain ⟨own, left, first, same, values⟩ := readItem_start alone
  -- What is left of the part alone is still a piece of it, so it has no bar.
  have inside : '|' ∉ short.rest := by
    have begun : ReachesAs (.ofText part.2) ({}, ⟨part.2, 0, part.2.utf8ByteSize⟩)
        ({}, ⟨0, part.2.toList⟩) := ⟨rfl, .whole part.2⟩
    have agrees := Layout.bars.scanItem_agrees context begun part.1
    rw [first] at agrees
    obtain ⟨_, -, reaches⟩ := agrees.ok_right
    obtain ⟨taken, whole, -⟩ := reaches.cursor.ahead
    have whole : part.2.toList = taken ++ short.rest := same ▸ whole
    rw [whole] at text
    exact fun inside => text (List.mem_append_right taken inside)
  obtain ⟨nothing, rest⟩ := behind.rest.ends_together inside ends
  rw [nothing] at same
  exact ⟨rest, own, ⟨left.position, same ▸ first⟩, values⟩

theorem Takes.readItem (taken : Takes context part own) (barless : context.Barless)
    (item : part.1.isLiteral = false) (ended : Text.EndsPart ending) (fields : Fields)
    (position : Nat) :
    ∃ after stop, Layout.bars.readItem context (fields, ⟨position, part.2.toList ++ ending⟩) part.1
      = .ok (after, ⟨stop, ending⟩) := by
  obtain ⟨stop, first⟩ := taken
  obtain ⟨there, left, alone, nothing⟩ := readItem_later fields position first
  have alike := readItem_alike barless item ended fields position
  rw [alone] at alike
  obtain ⟨⟨after, long⟩, read, -, behind⟩ := alike.ok_right
  have rest : Text.Like ending left.rest long.rest := behind.rest
  rw [nothing] at rest
  exact ⟨after, long.position, rest.eq_ending ▸ read⟩

end Step

/-! ### Runs over the parts -/

theorem readItem_bar (fields : Fields) (position : Nat) (cs : List Char) :
    Layout.bars.readItem context (fields, ⟨position, '|' :: cs⟩) (.literal 0)
      = .ok (fields, ⟨position + 1, cs⟩) := rfl

theorem head?_of_readItem_bar {cursor stop : Cursor}
    (read : Layout.bars.readItem context (fields, cursor) (.literal 0) = .ok (after, stop)) :
    cursor.rest.head? = some '|' := by
  obtain ⟨next, taken, -⟩ := bind_eq_ok_iff.mp read
  rw [Cursor.literal_exact taken]
  rfl

/-- A run over the whole text reads every part of it. -/
theorem gathers_of_foldlM (barless : context.Barless) (divided : Divided parts) {position : Nat}
    {stop : Cursor}
    (run : (Layout.barred parts).items.foldlM (Layout.bars.readItem context)
      (fields, ⟨position, (barredText parts).toList⟩) = .ok (after, stop))
    (finished : stop.rest = []) : Gathers context parts fields after := by
  induction parts generalizing fields position with
  | nil =>
    cases run
    exact .nil _
  | cons part parts ih =>
    have item := divided.items part List.mem_cons_self
    have text := divided.texts part List.mem_cons_self
    cases parts with
    | nil =>
      obtain ⟨⟨middle, left⟩, read, last⟩ := bind_eq_ok_iff.mp run
      cases last
      rw [toList_barredText_singleton, ← List.append_nil part.2.toList] at read
      have ends : Text.EndsPart stop.rest := by simp [Text.EndsPart, finished]
      obtain ⟨-, first⟩ := takesInto_of_readItem barless item text Text.endsPart_nil read ends
      exact .cons divided first (fun slot other => readItem_keepsOthers read other) (.nil _)
    | cons next parts =>
      obtain ⟨⟨middle, left⟩, read, run⟩ := bind_eq_ok_iff.mp run
      obtain ⟨⟨same, behind⟩, front, run⟩ := bind_eq_ok_iff.mp run
      rw [toList_barredText_cons] at read
      have found := head?_of_readItem_bar front
      have ends : Text.EndsPart left.rest := by simp [Text.EndsPart, found]
      obtain ⟨rest, first⟩ :=
        takesInto_of_readItem barless item text (Text.endsPart_bar _) read ends
      obtain ⟨place, left⟩ := left
      subst rest
      rw [readItem_bar] at front
      cases front
      exact .cons divided first (fun slot other => readItem_keepsOthers read other)
        (ih divided.tail run)

/-- Where every part is read to its end on its own, so is the whole text. -/
theorem foldlM_of_takes (barless : context.Barless)
    (items : ∀ part ∈ parts, part.1.isLiteral = false)
    (taken : ∀ part ∈ parts, ∃ own, Takes context part own) (fields : Fields) (position : Nat) :
    ∃ after stop, (Layout.barred parts).items.foldlM (Layout.bars.readItem context)
      (fields, ⟨position, (barredText parts).toList⟩) = .ok (after, ⟨stop, []⟩) := by
  induction parts generalizing fields position with
  | nil => exact ⟨fields, position, rfl⟩
  | cons part parts ih =>
    have item := items part List.mem_cons_self
    obtain ⟨own, first⟩ := taken part List.mem_cons_self
    cases parts with
    | nil =>
      obtain ⟨after, stop, read⟩ := first.readItem barless item Text.endsPart_nil fields position
      refine ⟨after, stop, bind_eq_ok_iff.mpr ⟨_, ?_, rfl⟩⟩
      rw [toList_barredText_singleton, ← List.append_nil part.2.toList]
      exact read
    | cons next parts =>
      obtain ⟨middle, stop, read⟩ := first.readItem barless item
        (Text.endsPart_bar (barredText (next :: parts)).toList) fields position
      obtain ⟨after, last, run⟩ :=
        ih (fun part member => items part (List.mem_cons_of_mem _ member))
          (fun part member => taken part (List.mem_cons_of_mem _ member)) middle (stop + 1)
      refine ⟨after, last, bind_eq_ok_iff.mpr ⟨_, ?_, bind_eq_ok_iff.mpr ⟨_, readItem_bar .., run⟩⟩⟩
      rw [toList_barredText_cons]
      exact read

end Parts

namespace Layout

variable {context : ReadContext} {parts others : List (Item × String)}

/-- Reading parts with bars gives an instant if every part is read to its end on its own and the
values found give that instant. -/
theorem parse_barred_eq_ok_iff (barless : context.Barless) (divided : Divided parts) {n : Int} :
    (barred parts).parse context (barredText parts) = .ok n ↔
      ∃ fields, Gathers context parts {} fields ∧ fields.instant 0 = .ok n := by
  rw [parse_eq_read]
  constructor
  · intro parsed
    obtain ⟨⟨fields, stop⟩, run, parsed⟩ := bind_eq_ok_iff.mp parsed
    simp only at parsed
    split at parsed
    next finished =>
      exact ⟨fields, gathers_of_foldlM barless divided run (List.isEmpty_iff.mp finished), parsed⟩
    next => cases parsed
  · rintro ⟨fields, gathered, composed⟩
    have taken : ∀ part ∈ parts, ∃ own, Takes context part own := by
      intro part member
      obtain ⟨own, taken, -⟩ := gathered.taken part member
      exact ⟨own, taken⟩
    obtain ⟨after, stop, run⟩ := foldlM_of_takes barless divided.items taken {} 0
    have again := gathers_of_foldlM barless divided run rfl
    have same : fields.instant 0 = .ok n ↔ after.instant 0 = .ok n :=
      Fields.instant_same (gathered.unique again) 0 0 n
    exact bind_eq_ok_iff.mpr ⟨_, run, same.mp composed⟩

/-- The instant that parts with bars give does not depend on the order of the parts. -/
theorem parse_barred_perm (barless : context.Barless) (divided : Divided parts)
    (perm : parts.Perm others) (n : Int) :
    (barred parts).parse context (barredText parts) = .ok n ↔
      (barred others).parse context (barredText others) = .ok n := by
  rw [parse_barred_eq_ok_iff barless divided, parse_barred_eq_ok_iff barless (divided.perm perm)]
  apply exists_congr
  intro fields
  constructor
  · rintro ⟨gathered, composed⟩
    exact ⟨gathered.perm perm, composed⟩
  · rintro ⟨gathered, composed⟩
    exact ⟨gathered.perm perm.symm, composed⟩

/-- A date with its era, half of the day, weekday and zone, read forwards and backwards. -/
theorem parse_barred_date_backwards :
    let parts : List (Item × String) :=
      [(.era, "AD"), (.year .greedy, "2021"), (.monthName .long, "March"),
        (.number .day .greedy, "4"), (.halfOfDay, "PM"), (.hour .from1To12 .greedy, "3"),
        (.weekdayName .long, "Thursday"), (.weekday, "4"), (.zone, "+01:00")]
    let context : ReadContext :=
      { locale := some ⟨"en", Locale.Standard.english, []⟩, window := .around 2000 }
    context.Barless ∧ Divided parts ∧ parts.Perm parts.reverse ∧
      (barred parts.reverse).parse context (barredText parts.reverse)
        = .ok 1614866400000000000 := by
  intro parts context
  have barless : context.Barless := ⟨by decide +kernel, by decide +kernel⟩
  have divided : Divided parts := by decide
  have perm : parts.Perm parts.reverse := (List.reverse_perm parts).symm
  have forwards : (barred parts).parse context (barredText parts) = .ok 1614866400000000000 := by
    decide +kernel
  exact ⟨barless, divided, perm, (parse_barred_perm barless divided perm _).mp forwards⟩

end Layout
end CivilTime
