import Mathlib.Data.List.Nodup
import Memoizer.Proofs.RuntimeImport

namespace Memoizer

namespace Import

variable {c : Config} {i : Import}

theorem adding_eq_self {names : List String} (h : i.adding names = i) : names = [] := by
  have hspecs : i.specs ++ names.map (fun name => .named name name) = i.specs := congrArg Import.specs h
  simpa using hspecs

theorem missing_adding (c : Config) (i : Import) : (i.adding (i.missing c)).missing c = [] := by
  rw [missing, List.filter_eq_nil_iff]
  intro name hname
  simp [i.binds_adding_missing hname]

theorem missing_ofMemo_eq_nil_iff (c : Config) : (ofMemo c).missing c = [] ↔ c.statePrimitive = c.memoPrimitive := by
  have hbinds (name : String) : (ofMemo c).binds name = true ↔ name = c.memoPrimitive := by
    rw [binds_iff]
    simp [ofMemo]
  rw [missing, List.filter_eq_nil_iff]
  simp only [Bool.not_eq_true', Bool.not_eq_false, hbinds]
  rw [Config.primitives]
  split
  next hsame => simp [hsame]
  next hne => simp [hne]

end Import

section Upkeep

variable {c : Config} {m : Module} {front back : List Item} {i : Import}

namespace Module

theorem ensureRuntimeImport_changed_iff (m : Module) (c : Config) :
    (m.ensureRuntimeImport c).changed = true ↔ (m.ensureRuntimeImport c).result ≠ m := by
  rcases exists_firstRuntime c m.items with ⟨front, i, back, h⟩ | hnone
  · obtain ⟨hresult, hchanged⟩ := ensureRuntimeImport_of_first h
    rw [hchanged, hresult, not_iff_not]
    constructor
    · intro hmissing
      rw [hmissing, Import.adding_nil, ← h.items_eq]
    · intro hsame
      have hitems : front ++ .importDecl (i.adding (i.missing c)) :: back = front ++ .importDecl i :: back :=
        (congrArg items hsame).trans h.items_eq
      rw [List.append_cancel_left_eq, List.cons.injEq, Item.importDecl.injEq] at hitems
      exact Import.adding_eq_self hitems.1
  · obtain ⟨hresult, hchanged⟩ := ensureRuntimeImport_of_none hnone
    rw [hresult]
    refine ⟨fun _ hsame => ?_, fun _ => hchanged⟩
    exact List.cons_ne_self _ _ (congrArg items hsame)

def IsSettled (c : Config) (m : Module) : Prop :=
  (m.ensureRuntimeImport c).changed = false ∧ (m.ensureRuntimeImport c).result = m

theorem isSettled_iff_missing (h : FirstRuntime c m.items front i back) : m.IsSettled c ↔ i.missing c = [] := by
  obtain ⟨_, hchanged⟩ := ensureRuntimeImport_of_first h
  have hsame := m.ensureRuntimeImport_changed_iff c
  rw [IsSettled, ← Bool.not_eq_true, hchanged, not_not]
  refine ⟨fun hsettled => hsettled.1, fun hmissing => ⟨hmissing, ?_⟩⟩
  by_contra hne
  exact hchanged.mp (hsame.mpr hne) hmissing

theorem isSettled_of_first (h : FirstRuntime c m.items front i back) : (m.ensureRuntimeImport c).result.IsSettled c := by
  -- One call settles a module that has an import to complete, since the next call comes to the same import.
  rw [(ensureRuntimeImport_of_first h).1, isSettled_iff_missing (h.replace ((i.isRuntime_adding _).trans h.isRuntime))]
  exact i.missing_adding c

/-- The memo primitive is imported under its own name after one call, and nothing else is touched than the import that
binds it. The third call finds nothing to do, and so does the second one, unless the first has put an import on top that
still lacks the state primitive. -/
theorem ensureRuntimeImport_converges (m : Module) (c : Config) :
    let first := m.ensureRuntimeImport c
    let second := first.result.ensureRuntimeImport c
    (first.changed = true ↔ first.result ≠ m) ∧
    (∃ i, .importDecl i ∈ first.result.items ∧ i.source = c.runtimeModule ∧ i.takesNamed = true ∧
      .named c.memoPrimitive c.memoPrimitive ∈ i.specs) ∧
    ImportsKept c m.items first.result.items ∧
    second.result.IsSettled c ∧
    (first.result.IsSettled c ↔
      ¬ (first.result.items = .importDecl (.ofMemo c) :: m.items ∧ c.statePrimitive ≠ c.memoPrimitive)) := by
  intro first second
  obtain ⟨front, i, back, hfirst, hbinds⟩ := m.exists_first_ensureRuntimeImport c
  refine ⟨m.ensureRuntimeImport_changed_iff c, ⟨i, ?_, ?_, ?_, Import.binds_iff.mp hbinds⟩,
    m.ensureRuntimeImport_keeps c, isSettled_of_first hfirst, ?_⟩
  · rw [hfirst.items_eq]
    simp
  · exact Import.source_of_isRuntime hfirst.isRuntime
  · exact (Bool.and_eq_true_iff.mp hfirst.isRuntime).2
  · rcases exists_firstRuntime c m.items with ⟨front, i, back, h⟩ | hnone
    · refine iff_of_true (isSettled_of_first h) ?_
      rintro ⟨hinserted, _⟩
      have hlength := congrArg List.length hinserted
      simp [first, (ensureRuntimeImport_of_first h).1, h.items_eq] at hlength
    · have hresult : first.result = ⟨.importDecl (.ofMemo c) :: m.items⟩ := (ensureRuntimeImport_of_none hnone).1
      have htop : FirstRuntime c first.result.items [] (.ofMemo c) m.items :=
        ⟨congrArg items hresult, by simp, Import.isRuntime_ofMemo c⟩
      rw [isSettled_iff_missing htop, Import.missing_ofMemo_eq_nil_iff, hresult]
      simp

end Module

end Upkeep

def ImportSpec.localName : ImportSpec → String
  | .named _ localName => localName
  | .default localName => localName
  | .namespace localName => localName

def Import.localNames (i : Import) : List String := i.specs.map ImportSpec.localName

theorem Import.localNames_adding (i : Import) (names : List String) :
    (i.adding names).localNames = i.localNames ++ names := by
  rw [localNames, adding, List.map_append, List.map_map]
  exact congrArg _ (List.map_id names)

def Item.import? : Item → Option Import
  | .importDecl i => some i
  | _ => none

namespace Module

def imports (m : Module) : List Import := m.items.filterMap Item.import?

def importedNames (m : Module) : List String := m.imports.flatMap Import.localNames

/-- What has to be imported yet: the primitives that the first import to take them lacks, or the memo primitive where
there is no such import. -/
def missingNames (m : Module) (c : Config) : List String :=
  match m.imports.find? (Import.isRuntime c) with
  | some i => i.missing c
  | none => [c.memoPrimitive]

variable {c : Config} {m : Module} {front back : List Item} {i : Import}

theorem nodup_missingNames (m : Module) (c : Config) : (m.missingNames c).Nodup := by
  have hprimitives : c.primitives.Nodup := by
    rw [Config.primitives]
    split
    next => exact List.nodup_singleton _
    next hne => simpa [eq_comm] using hne
  rw [missingNames]
  split
  · exact hprimitives.filter _
  · exact List.nodup_singleton _

theorem find?_isRuntime_eq_none {items : List Item} (h : ∀ i, .importDecl i ∈ items → i.isRuntime c = false) :
    (items.filterMap Item.import?).find? (Import.isRuntime c) = none := by
  rw [List.find?_eq_none]
  intro i hi
  obtain ⟨item, hitem, himport⟩ := List.mem_filterMap.mp hi
  cases item with
  | importDecl _ =>
      cases himport
      simp [h i hitem]
  | function | raw => cases himport

theorem missingNames_of_first (h : FirstRuntime c m.items front i back) : m.missingNames c = i.missing c := by
  have hfind : m.imports.find? (Import.isRuntime c) = some i := by
    rw [imports, h.items_eq, List.filterMap_append, List.find?_append, find?_isRuntime_eq_none h.front_passed,
      Option.none_or]
    exact List.find?_cons_of_pos h.isRuntime
  rw [missingNames, hfind]

theorem missingNames_of_none (h : ∀ i, .importDecl i ∈ m.items → i.isRuntime c = false) :
    m.missingNames c = [c.memoPrimitive] := by
  rw [missingNames, imports, find?_isRuntime_eq_none h]

theorem importedNames_of_split (h : m.items = front ++ .importDecl i :: back) :
    m.importedNames = importedNames ⟨front⟩ ++ (i.localNames ++ importedNames ⟨back⟩) := by
  rw [importedNames, imports, h, List.filterMap_append, List.flatMap_append]
  rfl

theorem importedNames_ensureRuntimeImport (m : Module) (c : Config) :
    (m.ensureRuntimeImport c).result.importedNames.Perm (m.importedNames ++ m.missingNames c) := by
  rcases exists_firstRuntime c m.items with ⟨front, i, back, h⟩ | hnone
  · rw [(ensureRuntimeImport_of_first h).1, importedNames_of_split rfl, importedNames_of_split h.items_eq,
      missingNames_of_first h, Import.localNames_adding, List.append_assoc, List.append_assoc, List.append_assoc]
    exact (List.perm_append_comm.append_left _).append_left _
  · rw [(ensureRuntimeImport_of_none hnone).1, missingNames_of_none hnone]
    exact (List.perm_append_singleton _ _).symm

/-- Distinct names stay distinct exactly if none of the missing names is bound, by whichever import. -/
theorem nodup_importedNames_iff (m : Module) (c : Config) (h : m.importedNames.Nodup) :
    (m.ensureRuntimeImport c).result.importedNames.Nodup ↔ ∀ name ∈ m.missingNames c, name ∉ m.importedNames := by
  rw [(m.importedNames_ensureRuntimeImport c).nodup_iff, List.nodup_append]
  constructor
  · rintro ⟨_, _, hdisjoint⟩ name hmissing himported
    exact hdisjoint name himported name hmissing rfl
  · intro hfresh
    refine ⟨h, m.nodup_missingNames c, ?_⟩
    rintro name himported _ hmissing rfl
    exact hfresh name hmissing himported

/-- `import React from "react";`, followed by another import. -/
def besideReact (other : Import) : Module := ⟨[.importDecl ⟨"react", [.default "React"]⟩, .importDecl other]⟩

theorem nodup_beside_util :
    (besideReact ⟨"./util", [.named "sum" "sum"]⟩).importedNames.Nodup ∧
      ((besideReact ⟨"./util", [.named "sum" "sum"]⟩).ensureRuntimeImport {}).result.importedNames.Nodup := by
  have h : (besideReact ⟨"./util", [.named "sum" "sum"]⟩).importedNames.Nodup := by decide
  exact ⟨h, (nodup_importedNames_iff _ {} h).mpr (by decide)⟩

/-- The first import is given the memo primitive although the second one binds it. -/
theorem not_nodup_beside_useMemo :
    (besideReact ⟨"react", [.named "useMemo" "useMemo"]⟩).importedNames.Nodup ∧
      ¬ ((besideReact ⟨"react", [.named "useMemo" "useMemo"]⟩).ensureRuntimeImport {}).result.importedNames.Nodup := by
  decide

end Module

end Memoizer
