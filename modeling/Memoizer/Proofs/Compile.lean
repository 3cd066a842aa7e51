import Memoizer.Compile
import Memoizer.Proofs.Lowering

namespace Memoizer

namespace Function

variable {f : Function} {c : Config} {log log' : Log}

theorem analyze_of_lower_ok {body : Body} {items : List PartItem} (hlower : f.lower log = .ok body log')
    (hitems : body.partition (body.analyze c) = .ok items) :
    f.analyze c log = .ok ⟨body, body.analyze c, items⟩ log' := by
  change EStateM.bind f.lower _ log = _
  simp only [EStateM.bind, hlower, bind, liftExcept, hitems]
  rfl

theorem compile_of_analyze_ok {a : FunctionAnalysis} (h : f.analyze c log = .ok a log') :
    let r : Compiled := ⟨(a.memoDecls c).1 ++ (f.wrapStmts c).value, (a.memoDecls c).1.length, (f.wrapStmts c).count⟩
    f.compile c log =
      .ok r (((log'.append (a.memoDecls c).2).append (f.wrapStmts c).lines).append [f.summary r]) := by
  change EStateM.bind (f.analyze c) _ log = _
  simp only [EStateM.bind, h]
  rfl

theorem compile_of_lower_error {e : Error} (hlower : f.lower log = .error e log') :
    f.compile c log = .error e log' := by
  change EStateM.bind (EStateM.bind f.lower _) _ log = _
  simp only [EStateM.bind, hlower]

theorem compile_of_partition_error {body : Body} {e : Error} (hlower : f.lower log = .ok body log')
    (herror : body.partition (body.analyze c) = .error e) : f.compile c log = .error e log' := by
  change EStateM.bind (EStateM.bind f.lower _) _ log = _
  simp only [EStateM.bind, hlower, bind, liftExcept, herror]
  rfl

/-- A function that compiles has been lowered and cut into blocks, and the result is put together from these. -/
theorem compile_stages {r : Compiled} (h : f.compile c log = .ok r log') :
    ∃ log₁ items, f.lower log = .ok (f.emitted log) log₁ ∧
      (f.emitted log).partition ((f.emitted log).analyze c) = .ok items ∧
      let decls := (FunctionAnalysis.memoDecls ⟨f.emitted log, (f.emitted log).analyze c, items⟩ c).1
      r = ⟨decls ++ (f.wrapStmts c).value, decls.length, (f.wrapStmts c).count⟩ := by
  rcases f.lower_cases log with ⟨log₁, hlower⟩ | ⟨cause, log₁, hlower⟩
  · cases hitems : (f.emitted log).partition ((f.emitted log).analyze c) with
    | error e =>
        rw [compile_of_partition_error hlower hitems] at h
        cases h
    | ok items =>
        rw [compile_of_analyze_ok (analyze_of_lower_ok hlower hitems)] at h
        cases h
        exact ⟨log₁, items, hlower, rfl, rfl⟩
  · rw [compile_of_lower_error hlower] at h
    cases h

theorem compile_eq_ok {r : Compiled} (h : f.compile c log = .ok r log') :
    ∃ items, (f.emitted log).partition ((f.emitted log).analyze c) = .ok items ∧
      r.stmts = (FunctionAnalysis.memoDecls ⟨f.emitted log, (f.emitted log).analyze c, items⟩ c).1 ++
        (f.wrapStmts c).value ∧
      r.memoBlocks = (FunctionAnalysis.memoDecls ⟨f.emitted log, (f.emitted log).analyze c, items⟩ c).1.length := by
  obtain ⟨_, items, _, hitems, rfl⟩ := compile_stages h
  exact ⟨items, hitems, rfl, rfl⟩

end Function

end Memoizer
