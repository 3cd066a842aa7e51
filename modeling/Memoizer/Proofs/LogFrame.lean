import Memoizer.Proofs.Compile
import Memoizer.Proofs.LoweringSteps

namespace Memoizer

section Commutes

variable {ε σ α β : Type} {g : σ → σ}

def mapState (g : σ → σ) : EStateM.Result ε σ α → EStateM.Result ε σ α
  | .ok a s => .ok a (g s)
  | .error e s => .error e (g s)

/-- From `g s` the run is the same as from `s`, and it ends in `g` of where that one ends. -/
def Commutes (g : σ → σ) (m : EStateM ε σ α) : Prop := ∀ s, m (g s) = mapState g (m s)

theorem Commutes.pure (a : α) : Commutes g (pure a : EStateM ε σ α) := fun _ => rfl

theorem Commutes.throw (e : ε) : Commutes g (throw e : EStateM ε σ α) := fun _ => rfl

theorem Commutes.modify {f : σ → σ} (h : ∀ s, f (g s) = g (f s)) : Commutes g (modify f : EStateM ε σ PUnit) := by
  intro s
  change EStateM.Result.ok PUnit.unit (f (g s)) = .ok PUnit.unit (g (f s))
  rw [h]

theorem Commutes.bind {m : EStateM ε σ α} {k : α → EStateM ε σ β} (hm : Commutes g m) (hk : ∀ a, Commutes g (k a)) :
    Commutes g (m >>= k) := by
  intro s
  change EStateM.bind m k (g s) = mapState g (EStateM.bind m k s)
  simp only [EStateM.bind]
  rw [hm s]
  cases m s with
  | ok a t => exact hk a t
  | error e t => rfl

/-- A run may go by the state as long as it goes by what `g` leaves alone. -/
theorem Commutes.get_bind {k : σ → EStateM ε σ β} (hread : ∀ s, k (g s) = k s) (hk : ∀ s, Commutes g (k s)) :
    Commutes g (get >>= k) := by
  intro s
  change k (g s) (g s) = mapState g (k s s)
  rw [hread]
  exact hk s s

end Commutes

def Log.after (lines : List Line) (log : Log) : Log := ⟨lines ++ log.lines⟩

theorem Log.after_append (lines : List Line) (log : Log) (more : List Line) :
    (log.after lines).append more = (log.append more).after lines := by
  simp only [after, append, List.append_assoc]

def Lowering.after (lines : List Line) (s : Lowering) : Lowering := { s with log := s.log.after lines }

variable {lines : List Line}

namespace Lower

theorem commutes_emit (op : Op) : Commutes (Lowering.after lines) (emit op) := by
  intro s
  have hbuilder : (s.after lines).toBuilder = s.toBuilder := rfl
  simp only [emit, hbuilder]
  cases s.toBuilder.emit? op with
  | none => rfl
  | some r => rfl

theorem commutes_note (level : Level) (message : String) : Commutes (Lowering.after lines) (note level message) := by
  apply Commutes.modify
  intro s
  simp only [Lowering.after, Log.after, Log.push, List.append_assoc]

theorem commutes_stamp (place : Option Place) : Commutes (Lowering.after lines) (stamp place) := .modify fun _ => rfl

theorem commutes_fail (cause : Cause) : Commutes (Lowering.after lines) (fail cause) :=
  .get_bind (fun _ => rfl) fun _ => (commutes_note _ _).bind fun _ => .throw _

theorem commutes_unsupported (kind : String) (expr : Option Expr) (place : Option Place) :
    Commutes (Lowering.after lines) (unsupported kind expr place) :=
  .get_bind (fun _ => rfl) fun _ => (commutes_note _ _).bind fun _ => commutes_emit _

theorem commutes_unsupportedExpr (kind : String) (e : Expr) : Commutes (Lowering.after lines) (unsupportedExpr kind e) :=
  .get_bind (fun _ => rfl) fun _ => commutes_unsupported _ _ _

theorem commutes_lowerIdent (name : String) : Commutes (Lowering.after lines) (lowerIdent name) := by
  refine .get_bind (fun _ => rfl) fun s => ?_
  cases s.body.resolve name with
  | none => exact commutes_emit _
  | some id => exact .pure id

theorem closed_commutes (lines : List Line) : Closed fun m => Commutes (Lowering.after lines) m where
  pure := .pure
  bind := .bind
  emit := commutes_emit
  ident := commutes_lowerIdent
  unsupported := commutes_unsupported
  unsupportedExpr := commutes_unsupportedExpr
  stamp := commutes_stamp
  fail := commutes_fail

end Lower

namespace Function

open Lower

theorem commutes_lowerInto (f : Function) : Commutes (Lowering.after lines) f.lowerInto := by
  refine ((closed_commutes lines).lowerParams f.params).bind fun _ =>
    ((closed_commutes lines).lowerStmts f.body).bind fun _ => ?_
  exact .get_bind (fun _ => rfl) fun _ => commutes_note _ _

theorem commutes_lower (f : Function) : Commutes (Log.after lines) f.lower := by
  intro log
  have hafter : f.lowerInto (f.blank (log.after lines)) = mapState (Lowering.after lines) (f.lowerInto (f.blank log)) :=
    f.commutes_lowerInto (f.blank log)
  cases hrun : f.lowerInto (f.blank log) with
  | ok _ s =>
      rw [hrun] at hafter
      rw [lower_of_ok hrun, lower_of_ok hafter]
      rfl
  | error e s =>
      rw [hrun] at hafter
      rw [lower_of_error hrun, lower_of_error hafter]
      rfl

theorem commutes_analyze (f : Function) (c : Config) : Commutes (Log.after lines) (f.analyze c) := by
  refine f.commutes_lower.bind fun body => Commutes.bind ?_ fun items => .pure _
  cases body.partition (body.analyze c) with
  | ok items => exact .pure items
  | error e => exact .throw e

theorem commutes_write (more : List Line) : Commutes (Log.after lines) (Logged.write more) :=
  .modify fun log => Log.after_append lines log more

theorem commutes_compile (f : Function) (c : Config) : Commutes (Log.after lines) (f.compile c) := by
  refine (f.commutes_analyze c).bind fun analysis => ?_
  refine (commutes_write _).bind fun _ => (commutes_write _).bind fun _ => (commutes_write _).bind fun _ => ?_
  exact .pure _

/-- A function is compiled the same whatever has been logged before it. -/
theorem compile_eq_mapState (f : Function) (c : Config) (log : Log) :
    f.compile c log = mapState (Log.after log.lines) (f.compile c {}) := by
  have hlog : log = Log.after log.lines {} := by simp [Log.after]
  conv => lhs; rw [hlog]
  exact f.commutes_compile c {}

end Function

end Memoizer
