import Memoizer.Proofs.Compile
import Memoizer.Proofs.Strict.Rebuild

namespace Memoizer

namespace Strict

structure Sound (b : Body) (steps : Nat) (c : Config) : Prop where
  valuePath : ∀ id < b.size, valuePath b steps id = some (b.valuePath id)
  globalCalleeName : ∀ id < b.size, ∀ property,
    globalCalleeName b steps id property = some (b.globalCalleeName id property)
  rebuildExpr : ∀ id < b.size, rebuildExpr b steps id = some (b.rebuildExpr id)
  analyze : analyze b steps c = some (b.analyze c)
  consumed : consumed b = some ((List.range b.size).map b.isConsumed)
  mergedSpans : mergedSpans steps (b.analyze c) = some (Memoizer.mergedSpans (b.analyze c))
  reconstruct : reconstruct b steps = some b.reconstruct
  partition : ∃ items, partition b steps (b.analyze c) = some items ∧ b.partition (b.analyze c) = .ok items ∧
    memoDecls b steps c (b.analyze c) 0 items = some (b.memoDecls c (b.analyze c) 0 items)

theorem sound_of_backward {b : Body} (hb : b.Backward) {steps : Nat} (hsteps : b.size ≤ steps)
    (hsmall : b.size < 4294967296) (c : Config) : Sound b steps c where
  valuePath _ hid := valuePath_eq hb hid (Nat.lt_of_lt_of_le hid hsteps)
  globalCalleeName _ hid property := globalCalleeName_eq hb hsteps hid property
  rebuildExpr _ hid := rebuildExpr_eq hb hid (Nat.lt_of_lt_of_le hid hsteps)
  analyze := analyze_eq hb hsteps c
  consumed := consumed_eq hb
  mergedSpans := by
    have hlen := Body.length_analyze b c
    exact mergedSpans_eq (hlen.trans_le hsteps) (hlen ▸ hsmall) (Body.memoInterval_bounds hb c)
  reconstruct := reconstruct_eq hb hsteps
  partition := by
    obtain ⟨items, hitems, hitems'⟩ := partition_eq hb hsteps hsmall c
    have hsub := Body.blocksOf_partition hitems'
    refine ⟨items, hitems, hitems', memoDecls_eq hb hsteps c 0 items ?_ ?_⟩
    · intro block hblock
      obtain ⟨span, hspan, rfl⟩ := List.mem_map.mp (hsub.subset hblock)
      exact ⟨span, (Body.mergedSpans_bounds hb c hspan).2, rfl⟩
    -- There are no more blocks than spans and no more spans than instructions, so their numbers fit.
    · have hcount := hsub.length_le
      rw [List.length_map] at hcount
      have hspans := Body.length_mergedSpans_le hb c
      omega

end Strict

namespace Function

/-- Every operand that the lowering emits refers backward. Hence every id that a later pass looks up is there, every
recursion ends within as many steps as there are instructions, and nothing overflows. -/
theorem compile_never_goes_wrong (f : Function) (c : Config) (log : Log)
    (hsmall : (f.emitted log).size < 4294967296) (steps : Nat) (hsteps : (f.emitted log).size ≤ steps) :
    (f.emitted log).Backward ∧ Strict.Sound (f.emitted log) steps c ∧
      Strict.compile f steps c log = some (f.compile c log) ∧
      ((∃ r log', f.compile c log = .ok r log') ∨
        ∃ cause log', f.compile c log = .error (.structural f.name cause) log') := by
  have hb := f.emitted_backward log
  have hsound := Strict.sound_of_backward hb hsteps hsmall c
  refine ⟨hb, hsound, ?_⟩
  rcases f.lower_cases log with ⟨log', hlower⟩ | ⟨cause, log', hlower⟩
  · obtain ⟨items, hitems, hitems', hdecls⟩ := hsound.partition
    have hcompile := compile_of_analyze_ok (analyze_of_lower_ok hlower hitems')
    refine ⟨?_, .inl ⟨_, _, hcompile⟩⟩
    rw [hcompile, Strict.compile, hlower]
    simp only [hsound.analyze, hitems, hdecls, Option.bind_eq_bind, Option.bind_some, FunctionAnalysis.memoDecls]
    split <;> rfl
  · have hcompile := compile_of_lower_error (c := c) hlower
    refine ⟨?_, .inr ⟨cause, log', hcompile⟩⟩
    rw [hcompile, Strict.compile, hlower]

/-- `const list = a.items.filter(g); return { rows: list, size: a.n };`, of a parameter `a`. -/
def filteredRows : Function where
  name := "F"
  params := [.ident "a"]
  body := [
    .decl .const [.mk (.ident "list")
      (some (.call (.member (.member (.ident "a") (.name "items")) (.name "filter")) [.ident "g"]))] none,
    .ret (some (.object [.property (.ident "rows") (.ident "list") false,
      .property (.ident "size") (.member (.ident "a") (.name "n")) false])) none]
  async := false
  generator := false
  exported := .none
  place := none

theorem compile_filteredRows : (filteredRows.emitted {}).size = 8 ∧ (filteredRows.emitted {}).Backward ∧
    Strict.compile filteredRows 8 {} {} = some (filteredRows.compile {} {}) := by
  have hsize : (filteredRows.emitted {}).size = 8 := by rfl
  obtain ⟨hb, _, hrun, _⟩ := compile_never_goes_wrong filteredRows {} {} (by rw [hsize]; decide) 8 (by rw [hsize])
  exact ⟨hsize, hb, hrun⟩

end Function

end Memoizer
