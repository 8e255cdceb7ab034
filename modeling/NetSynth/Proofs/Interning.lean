import Mathlib.Data.List.Nodup
import NetSynth.Names

/-! A name stands for one text for good, and in a table without repetition a text has one name. -/
namespace NetSynth.NameTable

/-- No text is kept twice. -/
def Distinct (table : NameTable) : Prop := table.texts.toList.Nodup

/-- The later table holds the texts of the earlier one under the same names. -/
def Extends (before after : NameTable) : Prop := before.texts.toList <+: after.texts.toList

variable {table before after : NameTable} {text : String} {name : Name}

theorem text?_eq_some_iff : table.text? name = some text ↔
    table.texts.toList[name.index]? = some text := by
  rw [text?, Array.getElem?_toList]

theorem idxOf?_texts (table : NameTable) (text : String) :
    table.texts.idxOf? text = table.texts.toList.idxOf? text := by
  rw [← List.idxOf?_toArray, Array.toArray_toList]

theorem find?_eq_none_iff : table.find? text = none ↔ text ∉ table.texts.toList := by
  rw [find?, Option.map_eq_none_iff, Array.idxOf?_eq_none_iff, Array.mem_def]

theorem text?_of_find? (found : table.find? text = some name) : table.text? name = some text := by
  obtain ⟨place, first, rfl⟩ := Option.map_eq_some_iff.mp found
  rw [idxOf?_texts, List.idxOf?_eq_some_iff] at first
  obtain ⟨inside, same, _⟩ := first
  exact text?_eq_some_iff.mpr (List.getElem?_eq_some_iff.mpr ⟨inside, same⟩)

theorem find?_eq_some_iff (distinct : table.Distinct) :
    table.find? text = some name ↔ table.text? name = some text := by
  refine ⟨text?_of_find?, fun known => ?_⟩
  have stored := text?_eq_some_iff.mp known
  cases found : table.find? text with
  | none => exact absurd (List.mem_of_getElem? stored) (find?_eq_none_iff.mp found)
  | some first =>
    have stored' := text?_eq_some_iff.mp (text?_of_find? found)
    have inside := (List.getElem?_eq_some_iff.mp stored).1
    have same := (List.getElem?_inj inside distinct).mp (stored.trans stored'.symm)
    cases first
    cases name
    simp_all

/-- Two names with one text are the same name. -/
theorem name_unique (distinct : table.Distinct) {name' : Name}
    (known : table.text? name = some text) (known' : table.text? name' = some text) :
    name = name' := by
  have found := (find?_eq_some_iff distinct).mpr known
  exact Option.some.inj (found.symm.trans ((find?_eq_some_iff distinct).mpr known'))

theorem Extends.text? (larger : before.Extends after) (known : before.text? name = some text) :
    after.text? name = some text := by
  obtain ⟨added, same⟩ := larger
  have stored := text?_eq_some_iff.mp known
  rw [text?_eq_some_iff, ← same,
    List.getElem?_append_left (List.getElem?_eq_some_iff.mp stored).1, stored]

/-- A text that is kept already keeps its name, also where the table has repetitions. -/
theorem Extends.find? (larger : before.Extends after) (found : before.find? text = some name) :
    after.find? text = some name := by
  obtain ⟨place, first, rfl⟩ := Option.map_eq_some_iff.mp found
  obtain ⟨added, same⟩ := larger
  rw [idxOf?_texts, List.idxOf?_eq_some_iff] at first
  obtain ⟨inside, here, absent⟩ := first
  rw [NameTable.find?, idxOf?_texts, ← same]
  refine congrArg (Option.map Name.mk) (List.idxOf?_eq_some_iff.mpr ⟨?_, ?_, ?_⟩)
  · rw [List.length_append]
    omega
  · rw [List.getElem_append_left inside, here]
  · intro earlier lt
    rw [List.getElem_append_left (Nat.lt_trans lt inside)]
    exact absent earlier lt

theorem intern_extends (table : NameTable) (text : String) :
    table.Extends (table.intern text).2 := by
  rw [Extends, intern]
  split
  · exact List.prefix_refl _
  · simp

theorem text?_intern (table : NameTable) (text : String) :
    (table.intern text).2.text? (table.intern text).1 = some text := by
  rw [intern]
  split
  · rename_i name found
    exact text?_of_find? found
  · simp [text?, size]

theorem intern_distinct (distinct : table.Distinct) (text : String) :
    (table.intern text).2.Distinct := by
  rw [intern]
  split
  · exact distinct
  · rename_i absent
    rw [Distinct, Array.toList_push, List.nodup_append]
    refine ⟨distinct, List.nodup_singleton text, ?_⟩
    rintro other member _ listed rfl
    rw [List.mem_singleton.mp listed] at member
    exact find?_eq_none_iff.mp absent member

end NetSynth.NameTable
