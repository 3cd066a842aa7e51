import Mathlib.Tactic.Common
import Memoizer.RuntimeImport

namespace Memoizer

def Config.primitives (c : Config) : List String :=
  if c.statePrimitive = c.memoPrimitive then [c.memoPrimitive] else [c.memoPrimitive, c.statePrimitive]

theorem Config.memoPrimitive_mem (c : Config) : c.memoPrimitive ∈ c.primitives := by
  rw [primitives]
  split <;> simp

namespace Import

variable {c : Config} {i : Import} {name : String}

def adding (i : Import) (names : List String) : Import :=
  { i with specs := i.specs ++ names.map fun name => .named name name }

theorem adding_nil (i : Import) : i.adding [] = i := by
  rw [adding, List.map_nil, List.append_nil]

theorem binds_iff : i.binds name = true ↔ .named name name ∈ i.specs := by
  simp [binds]

theorem binds_adding (i : Import) (names : List String) :
    (i.adding names).binds name = (i.binds name || names.contains name) := by
  rw [Bool.eq_iff_iff, binds_iff, Bool.or_eq_true, binds_iff]
  simp [adding]

theorem isRuntime_adding (i : Import) (names : List String) : (i.adding names).isRuntime c = i.isRuntime c := by
  have hspecs : (names.map fun name => ImportSpec.named name name).any ImportSpec.isNamespace = false := by
    simp [ImportSpec.isNamespace]
  simp only [isRuntime, takesNamed, adding, List.any_append, hspecs, Bool.or_false]

theorem require_adding (i : Import) (names : List String) (name : String) :
    Import.require (i.adding names, names) name = if i.binds name || names.contains name then (i.adding names, names)
      else (i.adding (names ++ [name]), names ++ [name]) := by
  rw [Import.require, binds_adding]
  split
  · rfl
  · simp [adding]

def missing (c : Config) (i : Import) : List String := c.primitives.filter fun name => !i.binds name

theorem complete_eq (c : Config) (i : Import) : i.complete c = (i.adding (i.missing c), i.missing c) := by
  have hstart : (i, []) = (i.adding [], ([] : List String)) := by rw [adding_nil]
  rw [complete, hstart, List.foldl_cons, List.foldl_cons, List.foldl_nil, require_adding, missing, Config.primitives]
  by_cases hsame : c.statePrimitive = c.memoPrimitive
  · cases hmemo : i.binds c.memoPrimitive <;> simp [hsame, hmemo, require_adding]
  · cases hmemo : i.binds c.memoPrimitive <;> cases hstate : i.binds c.statePrimitive
    all_goals simp [hsame, hmemo, hstate, require_adding]

theorem binds_adding_missing (i : Import) (hname : name ∈ c.primitives) : (i.adding (i.missing c)).binds name = true := by
  rw [binds_adding]
  cases hb : i.binds name <;> simp [missing, hname, hb]

theorem source_of_isRuntime (h : i.isRuntime c = true) : i.source = c.runtimeModule := by
  rw [isRuntime, Bool.and_eq_true, beq_iff_eq] at h
  exact h.1

def ofMemo (c : Config) : Import := ⟨c.runtimeModule, [.named c.memoPrimitive c.memoPrimitive]⟩

theorem isRuntime_ofMemo (c : Config) : (ofMemo c).isRuntime c = true := by
  simp [isRuntime, ofMemo, takesNamed, ImportSpec.isNamespace]

end Import

/-- The import is the first among the items that can take the primitives. -/
structure FirstRuntime (c : Config) (items front : List Item) (i : Import) (back : List Item) : Prop where
  items_eq : items = front ++ .importDecl i :: back
  front_passed : ∀ j, .importDecl j ∈ front → j.isRuntime c = false
  isRuntime : i.isRuntime c = true

section FirstRuntime

variable {c : Config} {m : Module} {items front back : List Item} {i : Import}

theorem exists_firstRuntime (c : Config) (items : List Item) :
    (∃ front i back, FirstRuntime c items front i back) ∨ ∀ i, .importDecl i ∈ items → i.isRuntime c = false := by
  induction items with
  | nil => exact .inr (by simp)
  | cons item items ih =>
      by_cases hhead : ∃ i, item = .importDecl i ∧ i.isRuntime c = true
      · obtain ⟨i, rfl, hi⟩ := hhead
        exact .inl ⟨[], i, items, rfl, by simp, hi⟩
      · have hpassed (passed : List Item) (htail : ∀ j, .importDecl j ∈ passed → j.isRuntime c = false) (j : Import)
            (hj : .importDecl j ∈ item :: passed) : j.isRuntime c = false := by
          rcases List.mem_cons.mp hj with he | hj
          · exact Bool.eq_false_iff.mpr fun hruntime => hhead ⟨j, he.symm, hruntime⟩
          · exact htail j hj
        rcases ih with ⟨front, i, back, h⟩ | hnone
        · refine .inl ⟨item :: front, i, back, ?_, hpassed front h.front_passed, h.isRuntime⟩
          rw [h.items_eq, List.cons_append]
        · exact .inr (hpassed items hnone)

theorem FirstRuntime.replace (h : FirstRuntime c items front i back) {i' : Import} (hi' : i'.isRuntime c = true) :
    FirstRuntime c (front ++ .importDecl i' :: back) front i' back := ⟨rfl, h.front_passed, hi'⟩

theorem completeFirst_of_passed (h : ∀ j, .importDecl j ∈ front → j.isRuntime c = false) (rest : List Item) :
    completeFirst c (front ++ rest) = (completeFirst c rest).map fun r => (front ++ r.1, r.2) := by
  induction front with
  | nil => simp
  | cons item front ih =>
      have htail := ih fun j hj => h j (List.mem_cons_of_mem _ hj)
      cases item with
      | importDecl j =>
          have hj : j.isRuntime c = false := h j List.mem_cons_self
          simp [completeFirst, hj, htail, Function.comp_def]
      | function | raw => simp [completeFirst, htail, Function.comp_def]

theorem FirstRuntime.completeFirst_eq (h : FirstRuntime c items front i back) :
    completeFirst c items = some (front ++ .importDecl (i.adding (i.missing c)) :: back, i.missing c) := by
  rw [h.items_eq, completeFirst_of_passed h.front_passed, completeFirst, if_pos h.isRuntime, i.complete_eq c]
  rfl

namespace Module

/-- The first import that can take the primitives is given those that it lacks. -/
theorem ensureRuntimeImport_of_first (h : FirstRuntime c m.items front i back) :
    (m.ensureRuntimeImport c).result = ⟨front ++ .importDecl (i.adding (i.missing c)) :: back⟩ ∧
      ((m.ensureRuntimeImport c).changed = true ↔ i.missing c ≠ []) := by
  rw [ensureRuntimeImport, h.completeFirst_eq]
  cases hmissing : i.missing c with
  | nil =>
      rw [Import.adding_nil, ← h.items_eq]
      simp
  | cons name names => simp

/-- Where there is no such import one is put on top. -/
theorem ensureRuntimeImport_of_none (h : ∀ i, .importDecl i ∈ m.items → i.isRuntime c = false) :
    (m.ensureRuntimeImport c).result = ⟨.importDecl (.ofMemo c) :: m.items⟩ ∧
      (m.ensureRuntimeImport c).changed = true := by
  have hnone := completeFirst_of_passed h []
  rw [List.append_nil] at hnone
  rw [ensureRuntimeImport, hnone]
  exact ⟨rfl, rfl⟩

theorem exists_first_ensureRuntimeImport (m : Module) (c : Config) :
    ∃ front i back, FirstRuntime c (m.ensureRuntimeImport c).result.items front i back ∧
      i.binds c.memoPrimitive = true := by
  rcases exists_firstRuntime c m.items with ⟨front, i, back, h⟩ | hnone
  · rw [(ensureRuntimeImport_of_first h).1]
    exact ⟨front, i.adding (i.missing c), back, h.replace ((i.isRuntime_adding _).trans h.isRuntime),
      i.binds_adding_missing c.memoPrimitive_mem⟩
  · rw [(ensureRuntimeImport_of_none hnone).1]
    exact ⟨[], .ofMemo c, m.items, ⟨rfl, by simp, Import.isRuntime_ofMemo c⟩, by simp [Import.binds_iff, Import.ofMemo]⟩

end Module

end FirstRuntime

/-- The items once names are added behind those of a runtime import, or one import is put on top. -/
inductive ImportsKept (c : Config) : List Item → List Item → Prop
  | added {front back : List Item} {i : Import} (hsource : i.source = c.runtimeModule) (names : List String) :
      ImportsKept c (front ++ .importDecl i :: back) (front ++ .importDecl (i.adding names) :: back)
  | inserted (items : List Item) : ImportsKept c items (.importDecl (Import.ofMemo c) :: items)

theorem ImportsKept.filterMap_function? {c : Config} {items items' : List Item} (h : ImportsKept c items items') :
    items'.filterMap Item.function? = items.filterMap Item.function? := by
  cases h with
  | added =>
      rw [List.filterMap_append, List.filterMap_append]
      rfl
  | inserted => rfl

namespace Module

theorem ensureRuntimeImport_keeps (m : Module) (c : Config) :
    ImportsKept c m.items (m.ensureRuntimeImport c).result.items := by
  rcases exists_firstRuntime c m.items with ⟨front, i, back, h⟩ | hnone
  · rw [(ensureRuntimeImport_of_first h).1, h.items_eq]
    exact .added (Import.source_of_isRuntime h.isRuntime) (i.missing c)
  · rw [(ensureRuntimeImport_of_none hnone).1]
    exact .inserted m.items

theorem ensureRuntimeImport_binds (m : Module) (c : Config) :
    ∃ i, .importDecl i ∈ (m.ensureRuntimeImport c).result.items ∧ i.source = c.runtimeModule ∧
      .named c.memoPrimitive c.memoPrimitive ∈ i.specs := by
  obtain ⟨front, i, back, h, hbinds⟩ := m.exists_first_ensureRuntimeImport c
  refine ⟨i, ?_, Import.source_of_isRuntime h.isRuntime, Import.binds_iff.mp hbinds⟩
  rw [h.items_eq]
  simp

end Module

end Memoizer
