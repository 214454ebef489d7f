import CivilTime.Locale.NameIndex
import CivilTime.Proofs.Text.Bytes

/-!
# The longest name at the start of a text

An index holds each name once, without ASCII capitals, with the first value given for it. Among
distinct names at most one of each length starts a text, so the longest one is determined by the
names alone.

Entries are in the order of their keys, so those with one first byte stand together, behind those
with a smaller one. A name that starts a text has the first byte of the text, so it is enough to look
there.
-/
namespace CivilTime.Locale

namespace NameMatch

variable {α : Type} {entry : NameMatch α} {cs : List Char}

theorem key_length (entry : NameMatch α) : entry.key.length = entry.bytes := Text.length_utf8 _

/-- Bytes start a text, in either case, where characters do. -/
theorem starts_iff : entry.starts (Text.utf8 cs) = true ↔ Text.fold entry.name <+: Text.fold cs := by
  rw [← Text.map_foldByte_prefix_iff, List.prefix_iff_eq_take, List.length_map, starts, key]
  simp only [Bool.and_eq_true, decide_eq_true_eq, beq_iff_eq, ← List.map_take]
  constructor
  · rintro ⟨-, same⟩
    exact same.symm
  · intro same
    have length := congrArg List.length same
    rw [List.length_map, List.length_map, List.length_take] at length
    exact ⟨by omega, same.symm⟩

end NameMatch

namespace NameIndex

variable {α : Type}

/-! ### What an index holds -/

/-- No name of the index is empty or has capitals, and the keys of the names ascend. -/
structure WellFormed (index : NameIndex α) : Prop where
  nonempty : ∀ entry ∈ index.entries, entry.name ≠ []
  folded : ∀ entry ∈ index.entries, Text.fold entry.name = entry.name
  ascending : index.entries.Pairwise fun a b => a.key < b.key

theorem WellFormed.distinct {index : NameIndex α} (h : index.WellFormed) :
    index.entries.Pairwise fun a b => a.name ≠ b.name := by
  refine h.ascending.imp fun {a b} before same => ?_
  rw [NameMatch.key, NameMatch.key, same] at before
  exact List.lt_irrefl _ before

/-- The value that the index has for a name without ASCII capitals. -/
def lookup (index : NameIndex α) (key : List Char) : Option α :=
  (index.entries.find? fun entry => entry.name == key).map (·.value)

/-- The first value that a list gives for a name, up to ASCII case. -/
def firstValue (names : List (String × α)) (key : List Char) : Option α :=
  (names.find? fun pair => Text.fold pair.1.toList == key).map (·.2)

/-! #### Sorting -/

section Sorting

variable {entry last : NameMatch α} {entries : List (NameMatch α)} {name : List Char}

theorem mem_insertSorted {other : NameMatch α} :
    other ∈ insertSorted entry entries ↔ other = entry ∨ other ∈ entries := by
  induction entries with
  | nil => simp [insertSorted]
  | cons first entries ih =>
    rw [insertSorted]
    split
    · exact List.mem_cons
    · rw [List.mem_cons, ih, List.mem_cons]
      tauto

theorem pairwise_insertSorted (sorted : entries.Pairwise fun a b => a.key ≤ b.key) :
    (insertSorted entry entries).Pairwise fun a b => a.key ≤ b.key := by
  induction entries with
  | nil => exact List.pairwise_singleton _ _
  | cons first entries ih =>
    obtain ⟨least, rest⟩ := List.pairwise_cons.mp sorted
    rw [insertSorted]
    split
    next before =>
      refine List.pairwise_cons.mpr ⟨?_, sorted⟩
      intro other member
      rcases List.mem_cons.mp member with rfl | later
      · exact before
      · exact List.le_trans before (least other later)
    next behind =>
      refine List.pairwise_cons.mpr ⟨?_, ih rest⟩
      intro other member
      rcases mem_insertSorted.mp member with rfl | later
      · exact List.le_of_lt (List.not_le.mp behind)
      · exact least other later

/-- Among entries of one name the one that is put in comes first. -/
theorem find?_insertSorted :
    (insertSorted entry entries).find? (·.name == name)
      = (entry :: entries).find? (·.name == name) := by
  induction entries with
  | nil => rfl
  | cons first entries ih =>
    rw [insertSorted]
    split
    · rfl
    next behind =>
      -- The two have different keys, so they do not both have the name.
      have different : ¬ (first.name = name ∧ entry.name = name) := by
        rintro ⟨rfl, same⟩
        rw [NameMatch.key, NameMatch.key, same] at behind
        exact behind (List.le_refl _)
      rw [List.find?_cons, ih]
      simp only [List.find?_cons, beq_eq_decide]
      by_cases left : first.name = name <;> by_cases right : entry.name = name <;>
        simp_all

theorem mem_sort {other : NameMatch α} : other ∈ sort entries ↔ other ∈ entries := by
  induction entries with
  | nil => rfl
  | cons first entries ih =>
    rw [sort, List.foldr_cons, mem_insertSorted, List.mem_cons]
    exact or_congr_right ih

theorem pairwise_sort (entries : List (NameMatch α)) :
    (sort entries).Pairwise fun a b => a.key ≤ b.key := by
  induction entries with
  | nil => exact List.Pairwise.nil
  | cons first entries ih => exact pairwise_insertSorted ih

/-- Sorting keeps the first entry of each name in front of the others. -/
theorem find?_sort : (sort entries).find? (·.name == name) = entries.find? (·.name == name) := by
  induction entries with
  | nil => rfl
  | cons first entries ih =>
    rw [sort, List.foldr_cons, find?_insertSorted, List.find?_cons, List.find?_cons]
    rw [sort] at ih
    rw [ih]

theorem find?_dropRepeats (other : name ≠ last.name) :
    (dropRepeats last entries).find? (·.name == name) = entries.find? (·.name == name) := by
  induction entries generalizing last with
  | nil => rfl
  | cons entry entries ih =>
    rw [dropRepeats]
    split
    next same =>
      rw [ih other, List.find?_cons, beq_eq_false_iff_ne.mpr (same ▸ other.symm)]
    next =>
      rw [List.find?_cons, List.find?_cons]
      by_cases asked : entry.name = name
      · rw [beq_iff_eq.mpr asked]
      · rw [beq_eq_false_iff_ne.mpr asked]
        exact ih (Ne.symm asked)

/-- Where entries of one name stand together, the first one is kept. -/
theorem find?_firstOfEach :
    (firstOfEach entries).find? (·.name == name) = entries.find? (·.name == name) := by
  cases entries with
  | nil => rfl
  | cons entry entries =>
    rw [firstOfEach, List.find?_cons, List.find?_cons]
    by_cases asked : entry.name = name
    · rw [beq_iff_eq.mpr asked]
    · rw [beq_eq_false_iff_ne.mpr asked]
      exact find?_dropRepeats (Ne.symm asked)

theorem dropRepeats_sublist : (dropRepeats last entries).Sublist entries := by
  induction entries generalizing last with
  | nil => exact List.Sublist.refl _
  | cons entry entries ih =>
    rw [dropRepeats]
    split
    · exact ih.cons entry
    · exact ih.cons_cons entry

theorem firstOfEach_sublist : (firstOfEach entries).Sublist entries := by
  cases entries with
  | nil => exact List.Sublist.refl _
  | cons entry entries => exact dropRepeats_sublist.cons_cons entry

theorem key_lt_of_le {left right : NameMatch α} (before : left.key ≤ right.key)
    (other : right.name ≠ left.name) : left.key < right.key := by
  by_contra behind
  exact other (Text.utf8_injective (List.le_antisymm (List.not_lt.mp behind) before))

theorem ascending_dropRepeats (sorted : (last :: entries).Pairwise fun a b => a.key ≤ b.key) :
    (last :: dropRepeats last entries).Pairwise fun a b => a.key < b.key := by
  induction entries generalizing last with
  | nil => exact List.pairwise_singleton _ _
  | cons entry entries ih =>
    obtain ⟨least, rest⟩ := List.pairwise_cons.mp sorted
    rw [dropRepeats]
    split
    next same =>
      refine ih (List.pairwise_cons.mpr ⟨?_, (List.pairwise_cons.mp rest).2⟩)
      exact fun other member => least other (List.mem_cons_of_mem _ member)
    next other =>
      have first := key_lt_of_le (least entry List.mem_cons_self) other
      have ascending := ih rest
      refine List.pairwise_cons.mpr ⟨?_, ascending⟩
      intro later member
      rcases List.mem_cons.mp member with rfl | further
      · exact first
      · exact List.lt_trans first ((List.pairwise_cons.mp ascending).1 later further)

theorem ascending_firstOfEach (sorted : entries.Pairwise fun a b => a.key ≤ b.key) :
    (firstOfEach entries).Pairwise fun a b => a.key < b.key := by
  cases entries with
  | nil => exact List.Pairwise.nil
  | cons entry entries => exact ascending_dropRepeats sorted

end Sorting

theorem exists_of_mem_ofList {names : List (String × α)} {entry : NameMatch α}
    (member : entry ∈ (ofList names).entries) :
    ∃ pair ∈ names, pair.1 ≠ "" ∧ entry = ⟨Text.fold pair.1.toList, pair.2⟩ := by
  obtain ⟨pair, given, rfl⟩ := List.mem_map.mp (mem_sort.mp (firstOfEach_sublist.mem member))
  obtain ⟨listed, nonempty⟩ := List.mem_filter.mp given
  exact ⟨pair, listed, by simpa using nonempty, rfl⟩

theorem wellFormed_ofList (names : List (String × α)) : (ofList names).WellFormed where
  nonempty entry member := by
    obtain ⟨pair, -, nonempty, rfl⟩ := exists_of_mem_ofList member
    simpa [Text.fold] using nonempty
  folded entry member := by
    obtain ⟨pair, -, -, rfl⟩ := exists_of_mem_ofList member
    exact Text.fold_fold _
  ascending := ascending_firstOfEach (pairwise_sort _)

/-- The index of a list has the first value that the list gives for a name. -/
theorem lookup_ofList (names : List (String × α)) {key : List Char} (h : key ≠ []) :
    (ofList names).lookup key = firstValue names key := by
  -- A name that is asked for is not empty, so leaving out the empty ones changes nothing.
  have asked (pair : String × α) :
      decide ((!pair.1.isEmpty) = true ∧ (Text.fold pair.1.toList == key) = true)
        = (Text.fold pair.1.toList == key) := by
    by_cases empty : pair.1 = ""
    · simpa [empty] using h
    · simp [empty, beq_eq_decide]
  rw [lookup, ofList, find?_firstOfEach, find?_sort, List.find?_map, List.find?_filter,
    Option.map_map, firstValue, ← funext asked]
  rfl

theorem WellFormed.mem_iff {index : NameIndex α} (h : index.WellFormed) (entry : NameMatch α) :
    entry ∈ index.entries ↔ index.lookup entry.name = some entry.value := by
  obtain ⟨entries⟩ := index
  have distinct := h.distinct
  clear h
  simp only [lookup, Option.map_eq_some_iff]
  induction entries with
  | nil => simp
  | cons first entries ih =>
    rw [List.pairwise_cons] at distinct
    have rest := ih distinct.2
    by_cases same : first.name = entry.name
    -- The first entry has the name, so no later one can.
    · have absent : entry ∉ entries := fun member => distinct.1 entry member same
      have equal : entry = first ↔ first.value = entry.value := by
        cases first
        cases entry
        simp_all [eq_comm]
      simp [absent, same, equal]
    · have other : entry ≠ first := fun equal => same (equal ▸ rfl)
      simp only [List.mem_cons, other, false_or, rest, List.find?_cons,
        beq_eq_false_iff_ne.mpr same]

theorem firstValue_eq_some {names : List (String × α)} {key : List Char} {value : α}
    (h : firstValue names key = some value) :
    ∃ pair ∈ names, Text.fold pair.1.toList = key ∧ pair.2 = value := by
  obtain ⟨pair, found, same⟩ := Option.map_eq_some_iff.mp h
  exact ⟨pair, List.mem_of_find?_eq_some found, by simpa using List.find?_some found, same⟩

theorem exists_firstValue {names : List (String × α)} {name : String} {value : α}
    (member : (name, value) ∈ names) :
    ∃ first, firstValue names (Text.fold name.toList) = some first := by
  cases found : firstValue names (Text.fold name.toList) with
  | none =>
    have absent := List.find?_eq_none.mp (Option.map_eq_none_iff.mp found) (name, value) member
    simp at absent
  | some first => exact ⟨first, rfl⟩

/-- An index holds each name of its list that is not empty, with the first value given for it. -/
theorem mem_ofList_iff (names : List (String × α)) (entry : NameMatch α) :
    entry ∈ (ofList names).entries ↔
      entry.name ≠ [] ∧ firstValue names entry.name = some entry.value := by
  have wellFormed := wellFormed_ofList names
  constructor
  · intro member
    have nonempty := wellFormed.nonempty entry member
    rw [wellFormed.mem_iff, lookup_ofList names nonempty] at member
    exact ⟨nonempty, member⟩
  · rintro ⟨nonempty, first⟩
    rwa [wellFormed.mem_iff, lookup_ofList names nonempty]

/-! ### Entries with one first byte -/

section Halving

variable {β : Type} {p : β → Bool} {as : List β}

/-- Where the elements that satisfy `p` come first, halving counts them. -/
theorem partitionPoint_eq_countP (apart : as.Pairwise fun a b => p b = true → p a = true) :
    partitionPoint p as = as.countP p := by
  fun_induction partitionPoint p as with
  | case1 as absent =>
    rw [List.getElem?_eq_none_iff] at absent
    rw [List.length_eq_zero_iff.mp (show as.length = 0 by omega), List.countP_nil]
  | case2 as a found satisfied ih =>
    have split := List.take_append_drop (as.length / 2 + 1) as
    obtain ⟨inside, same⟩ := List.getElem?_eq_some_iff.mp found
    have halves := apart
    rw [← split, List.pairwise_append] at halves
    -- All in front of the element in the middle satisfy `p` as it does.
    have front : ∀ b ∈ as.take (as.length / 2 + 1), p b = true := by
      have whole := apart.sublist (List.take_sublist (as.length / 2 + 1) as)
      rw [List.take_succ_eq_append_getElem inside, same] at whole ⊢
      intro b member
      rcases List.mem_append.mp member with earlier | last
      · exact (List.pairwise_append.mp whole).2.2 b earlier a List.mem_cons_self satisfied
      · rwa [List.mem_singleton.mp last]
    conv_rhs => rw [← split, List.countP_append, List.countP_eq_length.mpr front, List.length_take]
    rw [ih halves.2.1]
    omega
  | case3 as a found failed ih =>
    have split := List.take_append_drop (as.length / 2) as
    obtain ⟨inside, same⟩ := List.getElem?_eq_some_iff.mp found
    have halves := apart
    rw [← split, List.pairwise_append] at halves
    -- None from the element in the middle on satisfies `p`, for it does not.
    have back : ∀ b ∈ as.drop (as.length / 2), ¬ p b = true := by
      have whole := halves.2.1
      rw [List.drop_eq_getElem_cons inside, same] at whole ⊢
      intro b member satisfied
      rcases List.mem_cons.mp member with rfl | later
      · exact failed satisfied
      · exact failed ((List.pairwise_cons.mp whole).1 b later satisfied)
    conv_rhs => rw [← split, List.countP_append, List.countP_eq_zero.mpr back]
    rw [ih halves.1, Nat.add_zero]

theorem drop_countP (apart : as.Pairwise fun a b => p b = true → p a = true) :
    as.drop (as.countP p) = as.filter (fun a => !p a) := by
  induction as with
  | nil => rfl
  | cons a as ih =>
    obtain ⟨first, rest⟩ := List.pairwise_cons.mp apart
    by_cases satisfied : p a = true
    · rw [List.countP_cons_of_pos satisfied, List.drop_succ_cons, ih rest,
        List.filter_cons_of_neg (by simp [satisfied])]
    · have none : ∀ b ∈ as, ¬ p b = true := fun b member later => satisfied (first b member later)
      rw [List.countP_cons_of_neg satisfied, List.countP_eq_zero.mpr none, List.drop_zero,
        List.filter_cons_of_pos (by simp [satisfied]), List.filter_eq_self.mpr (by simpa using none)]

theorem takeWhile_eq_filter (apart : as.Pairwise fun a b => p b = true → p a = true) :
    as.takeWhile p = as.filter p := by
  induction as with
  | nil => rfl
  | cons a as ih =>
    obtain ⟨first, rest⟩ := List.pairwise_cons.mp apart
    by_cases satisfied : p a = true
    · rw [List.takeWhile_cons_of_pos satisfied, List.filter_cons_of_pos satisfied, ih rest]
    · have none : ∀ b ∈ as, ¬ p b = true := fun b member later => satisfied (first b member later)
      rw [List.takeWhile_cons_of_neg satisfied, List.filter_cons_of_neg satisfied,
        List.filter_eq_nil_iff.mpr none]

end Halving

theorem WellFormed.exists_head {index : NameIndex α} (h : index.WellFormed) {entry : NameMatch α}
    (member : entry ∈ index.entries) : ∃ first, entry.key.head? = some first := by
  cases key : entry.key with
  | nil => exact absurd (Text.utf8_injective (key.trans Text.utf8_nil.symm)) (h.nonempty entry member)
  | cons first rest => exact ⟨first, rfl⟩

theorem head_le_of_lt {left right : NameMatch α} {first other : UInt8}
    (before : left.key < right.key) (starts : left.key.head? = some first)
    (begins : right.key.head? = some other) : first ≤ other := by
  obtain ⟨rest, whole⟩ := List.head?_eq_some_iff.mp starts
  obtain ⟨others, wholeOther⟩ := List.head?_eq_some_iff.mp begins
  rw [whole, wholeOther, List.cons_lt_cons_iff] at before
  rcases before with less | ⟨same, -⟩
  · exact UInt8.le_of_lt less
  · exact UInt8.le_of_eq same

/-- What is searched holds the entries that start with the byte, and no others. -/
theorem WellFormed.mem_block_iff {index : NameIndex α} (h : index.WellFormed) {first : UInt8}
    {entry : NameMatch α} :
    entry ∈ index.block first ↔ entry ∈ index.entries ∧ entry.key.head? = some first := by
  -- Along the entries the first bytes do not descend.
  have heads : index.entries.Pairwise fun a b => ∃ c d, a.key.head? = some c ∧
      b.key.head? = some d ∧ c ≤ d := by
    refine h.ascending.imp_of_mem fun {a b} left right before => ?_
    obtain ⟨c, starts⟩ := h.exists_head left
    obtain ⟨d, begins⟩ := h.exists_head right
    exact ⟨c, d, starts, begins, head_le_of_lt before starts begins⟩
  have smaller : index.entries.Pairwise fun a b =>
      b.key.head?.all (· < first) = true → a.key.head?.all (· < first) = true := by
    refine heads.imp ?_
    rintro a b ⟨c, d, starts, begins, ordered⟩ less
    rw [begins, Option.all_some, decide_eq_true_eq] at less
    rw [starts, Option.all_some, decide_eq_true_eq]
    exact UInt8.lt_of_le_of_lt ordered less
  have same : (index.entries.filter fun a => !a.key.head?.all (· < first)).Pairwise fun a b =>
      (b.key.head? == some first) = true → (a.key.head? == some first) = true := by
    refine (heads.filter _).imp_of_mem ?_
    rintro a b left - ⟨c, d, starts, begins, ordered⟩ equal
    have reached := (List.mem_filter.mp left).2
    rw [starts, Option.all_some, Bool.not_eq_true', decide_eq_false_iff_not, UInt8.not_lt] at reached
    rw [begins, beq_iff_eq, Option.some.injEq] at equal
    rw [starts, beq_iff_eq, Option.some.injEq]
    exact UInt8.le_antisymm (equal ▸ ordered) reached
  rw [block, partitionPoint_eq_countP smaller, drop_countP smaller, takeWhile_eq_filter same,
    List.mem_filter, List.mem_filter, beq_iff_eq]
  constructor
  · rintro ⟨⟨member, -⟩, starts⟩
    exact ⟨member, starts⟩
  · rintro ⟨member, starts⟩
    refine ⟨⟨member, ?_⟩, starts⟩
    rw [starts, Option.all_some, Bool.not_eq_true', decide_eq_false_iff_not]
    exact UInt8.lt_irrefl _

theorem block_subset {index : NameIndex α} {first : UInt8} {entry : NameMatch α}
    (member : entry ∈ index.block first) : entry ∈ index.entries :=
  List.mem_of_mem_drop ((List.takeWhile_prefix _).mem member)

/-! ### The longest name -/

/-- Of the entries seen so far, the best one starts the text, and none of the others that do has a
longer key. -/
structure IsBest (text : List UInt8) (seen : List (NameMatch α)) (best : Option (NameMatch α)) :
    Prop where
  starts : ∀ entry ∈ best, entry ∈ seen ∧ entry.starts text = true
  longest : ∀ other ∈ seen, other.starts text = true →
    ∃ entry ∈ best, other.key.length ≤ entry.key.length

section Best

variable {text : List UInt8} {seen : List (NameMatch α)} {best : Option (NameMatch α)}

/-- One more entry is compared. -/
theorem IsBest.better (h : IsBest text seen best) (entry : NameMatch α) :
    IsBest text (seen ++ [entry]) (better text best entry) := by
  simp only [NameIndex.better]
  split
  next taken =>
    obtain ⟨longer, starts⟩ := Bool.and_eq_true_iff.mp taken
    constructor
    · rintro _ ⟨⟩
      exact ⟨by simp, starts⟩
    · intro other member begins
      refine ⟨entry, rfl, ?_⟩
      rcases List.mem_append.mp member with earlier | last
      · obtain ⟨former, rfl, shorter⟩ := h.longest other earlier begins
        have further : former.key.length < entry.key.length := by simpa using longer
        exact Nat.le_of_lt (Nat.lt_of_le_of_lt shorter further)
      · rw [List.mem_singleton.mp last]
  next kept =>
    constructor
    · intro former held
      obtain ⟨member, starts⟩ := h.starts former held
      exact ⟨List.mem_append_left _ member, starts⟩
    · intro other member begins
      rcases List.mem_append.mp member with earlier | last
      · exact h.longest other earlier begins
      -- The entry starts the text, so it was not taken because it is no longer than the best one.
      · obtain rfl := List.mem_singleton.mp last
        cases best with
        | none => simp [begins] at kept
        | some former => exact ⟨former, rfl, by simpa [begins] using kept⟩

theorem IsBest.foldl (h : IsBest text seen best) (entries : List (NameMatch α)) :
    IsBest text (seen ++ entries) (entries.foldl (NameIndex.better text) best) := by
  induction entries generalizing seen best with
  | nil => rwa [List.append_nil]
  | cons entry entries ih =>
    have next := ih (h.better entry)
    rwa [List.append_assoc] at next

theorem isBest_foldl (text : List UInt8) (entries : List (NameMatch α)) :
    IsBest text entries (entries.foldl (NameIndex.better text) none) := by
  have start : IsBest text [] (none : Option (NameMatch α)) := ⟨by simp, by simp⟩
  exact start.foldl entries

end Best

/-- What is found is in the index and starts the text. -/
theorem longest?_mem {index : NameIndex α} {cs : List Char} {found : NameMatch α}
    (named : index.longest? cs = some found) :
    found ∈ index.entries ∧ Text.fold found.name <+: Text.fold cs := by
  unfold longest? at named
  simp only at named
  split at named
  · cases named
  · obtain ⟨member, starts⟩ := (isBest_foldl _ _).starts found named
    exact ⟨block_subset member, NameMatch.starts_iff.mp starts⟩

/-- It is no longer than the text. -/
theorem length_le_of_longest? {index : NameIndex α} {cs : List Char} {found : NameMatch α}
    (named : index.longest? cs = some found) : found.length ≤ cs.length := by
  have bound := (longest?_mem named).2.length_le
  rwa [Text.length_fold, Text.length_fold] at bound

/-- As many characters of the text have the bytes of the name. -/
theorem bytes_of_longest? {index : NameIndex α} {cs : List Char} {found : NameMatch α}
    (named : index.longest? cs = some found) :
    Text.byteLength (cs.take found.length) = found.bytes := by
  have front := List.prefix_iff_eq_take.mp (longest?_mem named).2
  rw [Text.length_fold, ← Text.fold_take] at front
  rw [← Text.byteLength_fold, NameMatch.length, ← front, Text.byteLength_fold]
  rfl

/-- A name that starts a text starts with its first byte. -/
theorem WellFormed.head_of_starts {index : NameIndex α} (h : index.WellFormed) {cs : List Char}
    {entry : NameMatch α} (member : entry ∈ index.entries) (starts : entry.name <+: Text.fold cs) :
    ∃ first, (Text.utf8 cs).head? = some first ∧ entry.key.head? = some (Text.foldByte first) := by
  obtain ⟨first, begins⟩ := h.exists_head member
  obtain ⟨rest, whole⟩ := Text.utf8_prefix_iff.mpr starts
  rw [Text.utf8_fold] at whole
  have head : ((Text.utf8 cs).map Text.foldByte).head? = some first := by
    obtain ⟨tail, split⟩ := List.head?_eq_some_iff.mp begins
    rw [NameMatch.key] at split
    rw [← whole, split, List.cons_append, List.head?_cons]
  rw [List.head?_map] at head
  obtain ⟨byte, there, rfl⟩ := Option.map_eq_some_iff.mp head
  exact ⟨byte, there, begins⟩

/-- The best entry of those with the first byte of the text is the best one of all. -/
theorem WellFormed.isBest_longest? {index : NameIndex α} (h : index.WellFormed) (cs : List Char) :
    IsBest (Text.utf8 cs) index.entries (index.longest? cs) := by
  have starts {other : NameMatch α} (member : other ∈ index.entries)
      (begins : other.starts (Text.utf8 cs) = true) :
      ∃ first, (Text.utf8 cs).head? = some first ∧ other ∈ index.block (Text.foldByte first) := by
    rw [NameMatch.starts_iff, h.folded other member] at begins
    obtain ⟨first, there, head⟩ := h.head_of_starts member begins
    exact ⟨first, there, h.mem_block_iff.mpr ⟨member, head⟩⟩
  unfold longest?
  simp only
  split
  next none =>
    refine ⟨nofun, fun other member begins => ?_⟩
    obtain ⟨first, there, -⟩ := starts member begins
    rw [none] at there
    cases there
  next first some =>
    have best := isBest_foldl (Text.utf8 cs) (index.block (Text.foldByte first))
    refine ⟨fun entry found => ?_, fun other member begins => ?_⟩
    · obtain ⟨member, begins⟩ := best.starts entry found
      exact ⟨block_subset member, begins⟩
    · obtain ⟨byte, there, listed⟩ := starts member begins
      rw [some] at there
      cases there
      exact best.longest other listed begins

theorem WellFormed.longest?_eq_none_iff {index : NameIndex α} (h : index.WellFormed)
    (cs : List Char) :
    index.longest? cs = none ↔ ∀ entry ∈ index.entries, ¬ entry.name <+: Text.fold cs := by
  have best := h.isBest_longest? cs
  constructor
  · intro none entry member starts
    rw [← h.folded entry member, ← NameMatch.starts_iff] at starts
    obtain ⟨found, given, -⟩ := best.longest entry member starts
    rw [none] at given
    cases given
  · intro none
    by_contra some
    obtain ⟨found, given⟩ := Option.ne_none_iff_exists'.mp some
    obtain ⟨member, starts⟩ := best.starts found given
    rw [NameMatch.starts_iff, h.folded found member] at starts
    exact none found member starts

/-- The name found starts the text, and no longer name of the index does. -/
theorem WellFormed.longest?_eq_some_iff {index : NameIndex α} (h : index.WellFormed)
    (cs : List Char) (entry : NameMatch α) :
    index.longest? cs = some entry ↔
      entry ∈ index.entries ∧ entry.name <+: Text.fold cs ∧
      ∀ other ∈ index.entries, other.name <+: Text.fold cs → other.length ≤ entry.length := by
  have found (entry : NameMatch α) (returned : index.longest? cs = some entry) :
      entry ∈ index.entries ∧ entry.name <+: Text.fold cs ∧
      ∀ other ∈ index.entries, other.name <+: Text.fold cs → other.length ≤ entry.length := by
    have best := h.isBest_longest? cs
    obtain ⟨member, starts⟩ := best.starts entry returned
    rw [NameMatch.starts_iff, h.folded entry member] at starts
    refine ⟨member, starts, fun other present begins => ?_⟩
    -- Keys are compared by bytes, which of two starts of one text is by characters.
    have begun := begins
    rw [← h.folded other present, ← NameMatch.starts_iff] at begun
    obtain ⟨_, same, shorter⟩ := best.longest other present begun
    rw [returned] at same
    cases same
    rw [NameMatch.key_length, NameMatch.key_length] at shorter
    exact (Text.byteLength_le_iff begins starts).mp shorter
  constructor
  · exact found entry
  · rintro ⟨member, starts, longest⟩
    cases result : index.longest? cs with
    | none => exact absurd starts ((h.longest?_eq_none_iff _).mp result entry member)
    | some other =>
      obtain ⟨present, begins, beyond⟩ := found other result
      -- Two prefixes of one text of one length are the same name, which the index has once.
      have same : other.name = entry.name := by
        have shorter := longest other present begins
        have longer := beyond entry member starts
        exact (List.prefix_of_prefix_length_le begins starts shorter).eq_of_length
          (Nat.le_antisymm shorter longer)
      have value : other.value = entry.value := by
        rw [h.mem_iff, same] at present
        rw [h.mem_iff, present] at member
        exact Option.some.inj member
      cases other
      cases entry
      simp_all

/-- Texts that start with the same names of the index read alike. -/
theorem WellFormed.longest?_congr {index : NameIndex α} (h : index.WellFormed) {cs ds : List Char}
    (same : ∀ entry ∈ index.entries, entry.name <+: Text.fold cs ↔ entry.name <+: Text.fold ds) :
    index.longest? cs = index.longest? ds := by
  apply Option.ext
  intro entry
  rw [h.longest?_eq_some_iff, h.longest?_eq_some_iff]
  refine and_congr_right fun member => and_congr (same entry member) ?_
  exact forall₂_congr fun other present => imp_congr_left (same other present)

/-- A text that is a name of the list is read whole, as the first value given for it. -/
theorem longest?_of_firstValue {names : List (String × α)} {cs : List Char} {value : α}
    (nonempty : cs ≠ []) (first : firstValue names (Text.fold cs) = some value) :
    (ofList names).longest? cs = some ⟨Text.fold cs, value⟩ := by
  have key : Text.fold cs ≠ [] := by simpa [Text.fold] using nonempty
  rw [(wellFormed_ofList names).longest?_eq_some_iff, mem_ofList_iff]
  exact ⟨⟨key, first⟩, List.prefix_rfl, fun other _ starts => starts.length_le⟩

/-! ### Names with one value -/

/-- No name is empty, and names equal up to ASCII case have one value. -/
def Unambiguous (names : List (String × α)) : Prop :=
  ∀ a ∈ names, a.1 ≠ "" ∧ ∀ b ∈ names, Text.fold a.1.toList = Text.fold b.1.toList → a.2 = b.2

instance [DecidableEq α] (names : List (String × α)) : Decidable (Unambiguous names) :=
  inferInstanceAs (Decidable (∀ a ∈ names, _ ∧ ∀ b ∈ names, _))

theorem Unambiguous.firstValue_eq {names : List (String × α)} (h : Unambiguous names)
    {name : String} {value : α} (member : (name, value) ∈ names) :
    firstValue names (Text.fold name.toList) = some value := by
  obtain ⟨other, found⟩ := exists_firstValue member
  obtain ⟨first, present, same, rfl⟩ := firstValue_eq_some found
  rw [found, (h first present).2 (name, value) member same]

/-! ### Names with an end -/

/-- No name is empty, names equal up to ASCII case have one value, and a name that continues another
one does so with an ASCII letter. -/
def Delimited (names : List (String × α)) : Prop :=
  ∀ a ∈ names, a.1.toList ≠ [] ∧ ∀ b ∈ names,
    (Text.fold a.1.toList = Text.fold b.1.toList → a.2 = b.2) ∧
    (Text.fold a.1.toList <+: Text.fold b.1.toList →
      ((Text.fold b.1.toList).drop a.1.toList.length).head?.all Char.isAlpha)

instance [DecidableEq α] (names : List (String × α)) : Decidable (Delimited names) :=
  inferInstanceAs (Decidable (∀ a ∈ names, _ ∧ ∀ b ∈ names, _ ∧ _))

theorem Delimited.unambiguous {names : List (String × α)} (h : Delimited names) :
    Unambiguous names := by
  intro a member
  refine ⟨mt String.toList_eq_nil_iff.mpr (h a member).1, ?_⟩
  intro b present
  exact ((h a member).2 b present).1

/-- The name is read as the value wherever no ASCII letter follows it. -/
def Reads (index : NameIndex α) (name : String) (value : α) : Prop :=
  ∀ rest : List Char, (∀ c ∈ rest.head?, c.isAlpha = false) →
    index.longest? (name.toList ++ rest) = some ⟨Text.fold name.toList, value⟩

theorem Delimited.reads {names : List (String × α)} (h : Delimited names) {name : String}
    {value : α} (member : (name, value) ∈ names) : (ofList names).Reads name value := by
  intro rest next
  have key : Text.fold name.toList ≠ [] := by simpa [Text.fold] using (h _ member).1
  rw [(wellFormed_ofList names).longest?_eq_some_iff, mem_ofList_iff]
  refine ⟨⟨key, h.unambiguous.firstValue_eq member⟩, ?_, ?_⟩
  · rw [Text.fold_append]
    exact List.prefix_append _ _
  · intro other present starts
    -- A longer name would continue this one, by a letter that the text does not have there.
    by_contra longer
    have shorter : (Text.fold name.toList).length ≤ other.name.length :=
      Nat.le_of_lt (Nat.not_le.mp longer)
    have known := ((mem_ofList_iff names other).mp present).2
    obtain ⟨continuing, given, same, _⟩ := firstValue_eq_some known
    rw [Text.fold_append] at starts
    obtain ⟨tail, continued⟩ :=
      List.prefix_of_prefix_length_le (List.prefix_append _ _) starts shorter
    have letter := ((h _ member).2 continuing given).2 (same ▸ ⟨tail, continued⟩)
    rw [same, ← continued, List.drop_left' (Text.length_fold _)] at letter
    rw [← continued, List.prefix_append_right_inj] at starts
    -- The letter is the first one behind the name, and comes from the rest of the text.
    cases tail with
    | nil => simp [NameMatch.length, ← continued] at longer
    | cons c tail =>
      cases rest with
      | nil => simp at starts
      | cons d rest =>
        obtain ⟨rfl, _⟩ := List.cons_prefix_cons.mp starts
        have letter : d.toLower.isAlpha = true := letter
        rw [Char.isAlpha_toLower_eq_isAlpha, next d rfl] at letter
        cases letter

end CivilTime.Locale.NameIndex
