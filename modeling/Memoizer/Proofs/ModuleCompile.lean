import Mathlib
import Memoizer.Proofs.LogFrame
import Memoizer.Proofs.MemoDecl
import Memoizer.Proofs.RuntimeImport

namespace Memoizer

namespace Function

variable {f : Function} {c : Config}

def Compiles (f : Function) (c : Config) : Prop := ∃ r own, f.compile c {} = .ok r own

def compiled (f : Function) (c : Config) : Compiled :=
  match f.compile c {} with
  | .ok r _ => r
  | .error _ _ => ⟨f.body, 0, 0⟩

def ownLines (f : Function) (c : Config) : List Line :=
  match f.compile c {} with
  | .ok _ own | .error _ own => own.lines

def rewritten (f : Function) (c : Config) : Function := { f with body := (f.compiled c).stmts }

theorem compile_of_compiles (h : f.Compiles c) (log : Log) :
    f.compile c log = .ok (f.compiled c) (log.append (f.ownLines c)) := by
  obtain ⟨r, own, hok⟩ := h
  rw [f.compile_eq_mapState c log, compiled, ownLines, hok]
  rfl

theorem compile_of_error {e : Error} {own : Log} (h : f.compile c {} = .error e own) (log : Log) :
    f.compile c log = .error e (log.append own.lines) := by
  rw [f.compile_eq_mapState c log, h]
  rfl

end Function

def Item.rewritten (c : Config) : Item → Item
  | .function f => .function (f.rewritten c)
  | item => item

def Stats.ofFunctions (fs : List Function) (c : Config) : Stats where
  functions := fs.length
  memoBlocks := (fs.map fun f => (f.compiled c).memoBlocks).sum
  wrapped := (fs.map fun f => (f.compiled c).wrapped).sum

def ownLinesOf (fs : List Function) (c : Config) : List Line := fs.flatMap (·.ownLines c)

variable {c : Config}

theorem Stats.foldl_add (fs : List Function) (s : Stats) :
    fs.foldl (fun s f => s.add (f.compiled c)) s =
      { s with
        functions := s.functions + (ofFunctions fs c).functions
        memoBlocks := s.memoBlocks + (ofFunctions fs c).memoBlocks
        wrapped := s.wrapped + (ofFunctions fs c).wrapped } := by
  induction fs generalizing s with
  | nil => rfl
  | cons f fs ih =>
      rw [List.foldl_cons, ih]
      simp only [Stats.add, ofFunctions, List.length_cons, List.map_cons, List.sum_cons, Nat.add_assoc,
        Nat.add_comm fs.length 1]

/-- A run passes over items whose functions compile, and goes on behind them from their totals and their lines. -/
theorem compileItems_append {front : List Item} (h : ∀ f ∈ Module.functions ⟨front⟩, f.Compiles c) (rest : List Item)
    (stats : Stats) (log : Log) :
    compileItems c stats log (front ++ rest) =
      let run := compileItems c ((Module.functions ⟨front⟩).foldl (fun s f => s.add (f.compiled c)) stats)
        (log.append (ownLinesOf (Module.functions ⟨front⟩) c)) rest
      { run with items := front.map (Item.rewritten c) ++ run.items } := by
  induction front generalizing stats log with
  | nil => simp [Module.functions, ownLinesOf, Log.append]
  | cons item front ih =>
      cases item with
      | function f =>
          obtain ⟨hf, hfront⟩ := List.forall_mem_cons.mp h
          have hlines : (log.append (f.ownLines c)).append (ownLinesOf (Module.functions ⟨front⟩) c) =
              log.append (ownLinesOf (f :: Module.functions ⟨front⟩) c) := by
            simp only [Log.append, ownLinesOf, List.flatMap_cons, List.append_assoc]
          rw [List.cons_append, compileItems, Function.compile_of_compiles hf]
          simp only [ih hfront, hlines]
          rfl
      | importDecl | raw =>
          simp only [List.cons_append, compileItems, ih h]
          rfl

theorem compiles_or_first_error (c : Config) (items : List Item) :
    (∀ f ∈ Module.functions ⟨items⟩, f.Compiles c) ∨
    ∃ front f back e own, items = front ++ .function f :: back ∧ (∀ g ∈ Module.functions ⟨front⟩, g.Compiles c) ∧
      f.compile c {} = .error e own := by
  induction items with
  | nil => exact .inl (List.forall_mem_nil _)
  | cons item items ih =>
      cases item with
      | function f =>
          cases hf : f.compile c {} with
          | error e own => exact .inr ⟨[], f, items, e, own, rfl, List.forall_mem_nil _, hf⟩
          | ok r own =>
              rcases ih with hall | ⟨front, g, back, e, own', rfl, hfront, hg⟩
              · exact .inl (List.forall_mem_cons.mpr ⟨⟨r, own, hf⟩, hall⟩)
              · exact .inr ⟨.function f :: front, g, back, e, own', rfl,
                  List.forall_mem_cons.mpr ⟨⟨r, own, hf⟩, hfront⟩, hg⟩
      | importDecl | raw =>
          rcases ih with hall | ⟨front, g, back, e, own, rfl, hfront, hg⟩
          · exact .inl hall
          · exact .inr ⟨_ :: front, g, back, e, own, rfl, hfront, hg⟩

namespace Module

variable {m : Module}

theorem compile_of_compiles (h : ∀ f ∈ m.functions, f.Compiles c) (log : Log) :
    let items := m.items.map (Item.rewritten c)
    let stats := Stats.ofFunctions m.functions c
    let log' := log.append (ownLinesOf m.functions c)
    m.compile c log =
      if 0 < stats.memoBlocks + stats.wrapped ∧ c.passes.imports = true then
        let kept := Module.ensureRuntimeImport ⟨items⟩ c
        ⟨kept.result, .ok { stats with importChanged := kept.changed }, log'.append kept.lines⟩
      else ⟨⟨items⟩, .ok stats, log'⟩ := by
  intro items stats log'
  have hrun : compileItems c {} log m.items = ⟨items, stats, none, log'⟩ := by
    have happend := compileItems_append h [] {} log
    rw [List.append_nil] at happend
    rw [happend, Stats.foldl_add]
    simp only [compileItems, List.append_nil, Nat.zero_add]
    rfl
  simp only [Module.compile, hrun, Stats.changedBodies, Bool.and_eq_true, decide_eq_true_eq]

theorem compile_of_first_error {front back : List Item} {f : Function} {e : Error} {own : Log}
    (hitems : m.items = front ++ .function f :: back) (hfront : ∀ g ∈ Module.functions ⟨front⟩, g.Compiles c)
    (herror : f.compile c {} = .error e own) (log : Log) :
    m.compile c log = ⟨⟨front.map (Item.rewritten c) ++ .function f :: back⟩, .error e,
      (log.append (ownLinesOf (Module.functions ⟨front⟩) c)).append own.lines⟩ := by
  rw [Module.compile, hitems, compileItems_append hfront, compileItems, Function.compile_of_error herror]

theorem compiles_of_compile_ok {log : Log} {stats : Stats} (h : (m.compile c log).outcome = .ok stats) :
    ∀ f ∈ m.functions, f.Compiles c := by
  rcases compiles_or_first_error c m.items with hall | ⟨front, f, back, e, own, hitems, hfront, herror⟩
  · exact hall
  · rw [compile_of_first_error hitems hfront herror log] at h
    cases h

theorem length_lines_ensureRuntimeImport (m : Module) (c : Config) :
    (m.ensureRuntimeImport c).lines.length = if (m.ensureRuntimeImport c).changed then 1 else 0 := by
  rw [ensureRuntimeImport]
  split <;> rfl

/-- Compiling a module lifts compiling a function to each of its functions, one behind the other, and stops at the first
one that fails. What has been logged before stays in front and decides nothing. -/
theorem compile_pointwise (m : Module) (c : Config) (log : Log) :
    ((∀ f ∈ m.functions, f.Compiles c) →
      let items := m.items.map (Item.rewritten c)
      let stats := Stats.ofFunctions m.functions c
      let lines := log.lines ++ ownLinesOf m.functions c
      if 0 < stats.memoBlocks + stats.wrapped ∧ c.passes.imports = true then
        let kept := Module.ensureRuntimeImport ⟨items⟩ c
        ImportsKept c items kept.result.items ∧ kept.lines.length = (if kept.changed then 1 else 0) ∧
          m.compile c log = ⟨kept.result, .ok { stats with importChanged := kept.changed }, ⟨lines ++ kept.lines⟩⟩
      else m.compile c log = ⟨⟨items⟩, .ok stats, ⟨lines⟩⟩) ∧
    ∀ front f back e own, m.items = front ++ .function f :: back → (∀ g ∈ Module.functions ⟨front⟩, g.Compiles c) →
      f.compile c {} = .error e own →
        m.compile c log = ⟨⟨front.map (Item.rewritten c) ++ .function f :: back⟩, .error e,
          ⟨log.lines ++ ownLinesOf (Module.functions ⟨front⟩) c ++ own.lines⟩⟩ := by
  refine ⟨?_, ?_⟩
  · intro hall items stats lines
    have hcompile := compile_of_compiles hall log
    split
    next hchanged =>
      refine ⟨ensureRuntimeImport_keeps _ c, length_lines_ensureRuntimeImport _ c, ?_⟩
      rw [hcompile, if_pos hchanged]
      rfl
    next hsame =>
      rw [hcompile, if_neg hsame]
      rfl
  · intro front f back e own hitems hfront herror
    exact compile_of_first_error hitems hfront herror log

end Module

/-- `function F(a) { return a.filter().sort(); }` with the memo of its filter. -/
def memoizedFilter : Function :=
  { sortedFilter [] "a" with body := memoOfFilter "a" :: (sortedFilter [] "a").body }

def memoizedFilterLines : List Line :=
  [⟨.info, "lowered `F`: 4 instructions"⟩, ⟨.info, "`F`: memoized0 wraps v1 [a]"⟩,
    ⟨.success, "`F`: 1 memo block(s), 0 direct rewrite(s)"⟩]

theorem compile_sortedFilter :
    (sortedFilter [] "a").compile {} {} = .ok ⟨memoizedFilter.body, 1, 0⟩ ⟨memoizedFilterLines⟩ := by
  with_unfolding_all rfl

/-- `function G() { let x; }`. -/
def unsetVariable : Function where
  name := "G"
  params := []
  body := [.decl .lexical [.mk (.ident "x") none] none]
  async := false
  generator := false
  exported := .none
  place := none

def filterTwice : Module := ⟨[.function (sortedFilter [] "a"), .raw ";", .function (sortedFilter [] "a")]⟩

def filterAroundUnset : Module :=
  ⟨[.function (sortedFilter [] "a"), .function unsetVariable, .function (sortedFilter [] "a")]⟩

theorem compile_filterTwice_and_filterAroundUnset :
    filterTwice.compile {} ⟨[⟨.warn, "before"⟩]⟩ =
      ⟨⟨[.importDecl (Import.ofMemo {}), .function memoizedFilter, .raw ";", .function memoizedFilter]⟩,
        .ok { functions := 2, memoBlocks := 2, importChanged := true },
        ⟨[⟨.warn, "before"⟩] ++ (memoizedFilterLines ++ memoizedFilterLines) ++
          [⟨.info, "inserted import of useMemo from \"react\""⟩]⟩⟩ ∧
    filterAroundUnset.compile {} ⟨[⟨.warn, "before"⟩]⟩ =
      ⟨⟨[.function memoizedFilter, .function unsetVariable, .function (sortedFilter [] "a")]⟩,
        .error (.structural "G" (.noInitializer ["x"])),
        ⟨[⟨.warn, "before"⟩] ++ memoizedFilterLines ++
          [⟨.fatal, "cannot lower `G`: declaration of `x` has no initializer"⟩]⟩⟩ := by
  have hf : (sortedFilter [] "a").Compiles {} := ⟨_, _, compile_sortedFilter⟩
  have hcompiled : (sortedFilter [] "a").compiled {} = ⟨memoizedFilter.body, 1, 0⟩ := by
    rw [Function.compiled, compile_sortedFilter]
  have hown : (sortedFilter [] "a").ownLines {} = memoizedFilterLines := by
    rw [Function.ownLines, compile_sortedFilter]
  have hitem : Item.rewritten {} (.function (sortedFilter [] "a")) = .function memoizedFilter := by
    rw [Item.rewritten, Function.rewritten, hcompiled]
    rfl
  refine ⟨?_, ?_⟩
  · have hall : ∀ g ∈ filterTwice.functions, g.Compiles {} := by
      rintro g (_ | ⟨_, _ | ⟨_, ⟨⟩⟩⟩)
      · exact hf
      · exact hf
    have hitems : filterTwice.items.map (Item.rewritten {}) =
        [.function memoizedFilter, .raw ";", .function memoizedFilter] := by
      rw [filterTwice, List.map_cons, hitem, List.map_cons, List.map_singleton, hitem]
      rfl
    have hfunctions : filterTwice.functions = [sortedFilter [] "a", sortedFilter [] "a"] := rfl
    have hstats : Stats.ofFunctions filterTwice.functions {} = { functions := 2, memoBlocks := 2 } := by
      simp [hfunctions, Stats.ofFunctions, hcompiled]
    have hlines : ownLinesOf filterTwice.functions {} = memoizedFilterLines ++ memoizedFilterLines := by
      rw [hfunctions, ownLinesOf, List.flatMap_cons, List.flatMap_singleton, hown]
    have h := (Module.compile_pointwise filterTwice {} ⟨[⟨.warn, "before"⟩]⟩).1 hall
    rw [hitems, hstats, hlines] at h
    exact h.2.2
  · have hlines : ownLinesOf (Module.functions ⟨[.function (sortedFilter [] "a")]⟩) {} = memoizedFilterLines := by
      change ownLinesOf [sortedFilter [] "a"] {} = _
      rw [ownLinesOf, List.flatMap_singleton, hown]
    have h := (Module.compile_pointwise filterAroundUnset {} ⟨[⟨.warn, "before"⟩]⟩).2
      [.function (sortedFilter [] "a")] unsetVariable [.function (sortedFilter [] "a")] _ _ rfl
      (by rintro g (_ | ⟨_, ⟨⟩⟩); exact hf) rfl
    rw [List.map_singleton, hitem, hlines] at h
    exact h

end Memoizer
