import Memoizer.Proofs.Erasure
import Memoizer.Proofs.RoundTrip
import Memoizer.Proofs.Tiling

namespace Memoizer

open Lower

/-- What is lowered in one go: the parameters, or one declarator or other statement of the body. -/
inductive SourceUnit
  | params (patterns : List Pattern)
  | declarator (kind : DeclKind) (declarator : Declarator) (place : Option Place)
  | ret (value : Option Expr) (place : Option Place)
  | expr (value : Expr) (place : Option Place)
  | verbatim (kind text : String) (place : Option Place)

namespace SourceUnit

def lower : SourceUnit → Lower Unit
  | .params patterns => Pattern.lowerParams patterns
  | .declarator kind d place => do
    stamp place
    d.lower kind place
  | .ret value place => (Stmt.ret value place).lower
  | .expr value place => (Stmt.expr value place).lower
  | .verbatim kind text place => (Stmt.verbatim kind text place).lower

def evaluates : SourceUnit → Bool
  | .declarator .. => true
  | .ret .. => true
  | .expr .. => true
  | _ => false

end SourceUnit

def Stmt.units : Stmt → List SourceUnit
  | .decl kind declarators place => declarators.map (.declarator kind · place)
  | .ret value place => [.ret value place]
  | .expr value place => [.expr value place]
  | .verbatim kind text place => [.verbatim kind text place]

def Function.units (f : Function) : List SourceUnit := .params f.params :: f.body.flatMap Stmt.units

structure Stretch where
  unit : SourceUnit
  start : InstId
  stop : InstId

namespace Stretch

def ids (stretch : Stretch) : List InstId := List.range' stretch.start (stretch.stop - stretch.start)

theorem mem_ids_iff {stretch : Stretch} {id : InstId} : id ∈ stretch.ids ↔ stretch.start ≤ id ∧ id < stretch.stop := by
  rw [ids, List.mem_range'_1]
  lia

/-- Lowering the unit behind the instructions in front of the stretch appends those of the stretch. -/
structure IsLowered (stretch : Stretch) (b : Body) : Prop where
  start_le_stop : stretch.start ≤ stretch.stop
  run : ∃ s t, stretch.unit.lower s = .ok () t ∧ s.body.insts = b.insts.take stretch.start ∧
    t.body.insts = b.insts.take stretch.stop

end Stretch

/-- If the unit has calls, then it evaluates something, and each call comes behind values only and takes nothing from in
front of the unit that has no name. -/
def SourceUnit.Confines (unit : SourceUnit) (b : Body) (lo hi : InstId) : Prop :=
  ∀ j op, lo ≤ j → j < hi → b.op? j = some op → op.isCall = true →
    unit.evaluates = true ∧ (∀ k ∈ op.operands, lo ≤ k ∨ b.Binds k) ∧
      ∀ i op', lo ≤ i → i ≤ j → b.op? i = some op' → op'.isValue = true

namespace SourceUnit.Confines

variable {unit : SourceUnit} {b : Body} {lo mid hi : InstId}

theorem of_segment {ids : List InstId} (hunit : unit.evaluates = true) (h : b.Segment lo hi ids) :
    unit.Confines b lo hi := by
  intro j op hlo hhi ho _
  refine ⟨hunit, h.operands j op hlo hhi ho, fun i op' hi hij ho' => ?_⟩
  exact h.isValue i op' hi (Nat.lt_of_le_of_lt hij hhi) ho'

theorem succ {op : Op} (h : unit.Confines b lo mid) (ho : b.op? mid = some op) (hcall : op.isCall = false) :
    unit.Confines b lo (mid + 1) := by
  intro j op' hlo hhi ho' hcall'
  rcases Nat.lt_succ_iff_lt_or_eq.mp hhi with hj | rfl
  · exact h j op' hlo hj ho' hcall'
  · obtain rfl := Option.some.inj (ho.symm.trans ho')
    rw [hcall] at hcall'
    cases hcall'

theorem refl (unit : SourceUnit) (b : Body) (lo : InstId) : unit.Confines b lo lo :=
  fun _ _ hlo hhi => absurd hhi (Nat.not_lt.mpr hlo)

theorem emitted {s t : Lowering} {op : Op} {id : InstId} (h : unit.Confines b lo s.body.size) (he : Emitted b s t op id)
    (hcall : op.isCall = false) : unit.Confines b lo t.body.size := by
  have ho := he.op?_eq
  rw [he.id_eq] at ho
  rw [he.size_eq]
  exact h.succ ho hcall

end SourceUnit.Confines

namespace Lower

theorem Builds.ran {α : Type} {m : Lower α} {p : Body → Lowering → Lowering → α → Prop} (h : Builds m p) :
    Builds m fun b s t a => m s = .ok a t ∧ s.body.insts <+: t.body.insts ∧ t.body.insts <+: b.insts ∧ p b s t a := by
  intro s a t hrun
  obtain ⟨hst, hp⟩ := h s a t hrun
  exact ⟨hst, fun b hb htb => ⟨hrun, hst, htb, hp b hb htb⟩⟩

theorem builds_emitted_confines (unit : SourceUnit) {m : Lower InstId} {op : Op} (hop : op.isCall = false)
    (hm : Builds m fun b s t id => Emitted b s t op id) :
    Builds (do let _ ← m) fun b s t _ => unit.Confines b s.body.size t.body.size := by
  refine hm.discard.mono ?_
  rintro b _ s t _ ⟨id, he⟩
  exact (SourceUnit.Confines.refl unit b s.body.size).emitted he hop

theorem builds_value_confines (unit : SourceUnit) (hunit : unit.evaluates = true) (e : Expr) {last : InstId → Lower InstId}
    {op : InstId → Op} (hop : ∀ value, (op value).isCall = false)
    (hlast : ∀ value, Builds (last value) fun b s t id => Emitted b s t (op value) id) :
    Builds (do
      let value ← e.lower
      let _ ← last value) fun b s t _ => t.place = s.place ∧ unit.Confines b s.body.size t.body.size := by
  refine e.builds_lower.bind (fun value => (hlast value).discard) ?_
  rintro b _ s t u value _ hfound ⟨id, he⟩
  exact ⟨he.place_eq.trans hfound.place_eq, (SourceUnit.Confines.of_segment hunit hfound.segment).emitted he (hop value)⟩

end Lower

/-- The units have been lowered in order to the instructions from `lo` to `hi`. -/
structure Body.Laid (b : Body) (lo hi : InstId) (units : List SourceUnit) (layout : List Stretch) : Prop where
  le : lo ≤ hi
  units_eq : layout.map Stretch.unit = units
  ids_eq : layout.flatMap Stretch.ids = List.range' lo (hi - lo)
  isLowered : ∀ stretch ∈ layout, stretch.IsLowered b
  confines : ∀ stretch ∈ layout, stretch.unit.Confines b stretch.start stretch.stop

namespace Body.Laid

variable {b : Body} {lo mid hi : InstId} {units units' : List SourceUnit} {layout layout' : List Stretch}

theorem nil (b : Body) (lo : InstId) : b.Laid lo lo [] [] :=
  ⟨Nat.le_refl lo, rfl, by rw [Nat.sub_self]; rfl, List.forall_mem_nil _, List.forall_mem_nil _⟩

theorem append (h : b.Laid lo mid units layout) (h' : b.Laid mid hi units' layout') :
    b.Laid lo hi (units ++ units') (layout ++ layout') where
  le := Nat.le_trans h.le h'.le
  units_eq := by rw [List.map_append, h.units_eq, h'.units_eq]
  ids_eq := by rw [List.flatMap_append, h.ids_eq, h'.ids_eq, range'_append_range' h.le h'.le]
  isLowered := List.forall_mem_append.mpr ⟨h.isLowered, h'.isLowered⟩
  confines := List.forall_mem_append.mpr ⟨h.confines, h'.confines⟩

theorem single {unit : SourceUnit} {s t : Lowering} (hrun : unit.lower s = .ok () t)
    (hst : s.body.insts <+: t.body.insts) (htb : t.body.insts <+: b.insts)
    (hunit : unit.Confines b s.body.size t.body.size) :
    b.Laid s.body.size t.body.size [unit] [⟨unit, s.body.size, t.body.size⟩] where
  le := hst.length_le
  units_eq := rfl
  ids_eq := List.append_nil _
  isLowered := List.forall_mem_singleton.mpr
    ⟨hst.length_le, s, t, hrun, List.prefix_iff_eq_take.mp (hst.trans htb), List.prefix_iff_eq_take.mp htb⟩
  confines := List.forall_mem_singleton.mpr hunit

end Body.Laid

theorem SourceUnit.builds_laid (unit : SourceUnit)
    (h : Builds unit.lower fun b s t _ => unit.Confines b s.body.size t.body.size) :
    Builds unit.lower fun b s t _ => ∃ layout, b.Laid s.body.size t.body.size [unit] layout := by
  refine h.ran.mono ?_
  rintro b _ s t _ ⟨hrun, hst, htb, hunit⟩
  exact ⟨_, .single hrun hst htb hunit⟩

namespace Declarator

variable {kind : DeclKind} {place : Option Place}

theorem builds_confines (d : Declarator) : Builds (d.lower kind place) fun b s t _ =>
    t.place = s.place ∧ (SourceUnit.declarator kind d place).Confines b s.body.size t.body.size := by
  obtain ⟨target, init⟩ := d
  cases init with
  | none =>
      intro s _ t hrun
      cases hrun
  | some init =>
      cases target with
      | ident | array => exact builds_value_confines _ rfl init (fun _ => rfl) fun value => builds_emit _
      | object | assign | rest => exact builds_value_confines _ rfl init (fun _ => rfl) fun _ => builds_unsupported _ _ _

theorem lower_unit (d : Declarator) {s : Lowering} (hs : s.place = place) :
    (SourceUnit.declarator kind d place).lower s = d.lower kind place s := by
  subst hs
  rfl

theorem builds_units (ds : List Declarator) : Builds (lowerAll kind place ds) fun b s t _ =>
    s.place = place → ∃ layout, b.Laid s.body.size t.body.size (ds.map (.declarator kind · place)) layout := by
  induction ds with
  | nil => exact .pure fun b s _ => ⟨[], .nil b s.body.size⟩
  | cons d ds ih =>
      refine d.builds_confines.ran.bind (fun _ => ih) ?_
      rintro b _ s t u _ _ ⟨hrun, hst, htb, hplace, hunit⟩ hrest hs
      obtain ⟨layout, hlayout⟩ := hrest (hplace.trans hs)
      exact ⟨_, (Body.Laid.single ((d.lower_unit hs).trans hrun) hst htb hunit).append hlayout⟩

end Declarator

namespace Stmt

theorem builds_units (stmt : Stmt) : Builds stmt.lower fun b s t _ =>
    ∃ layout, b.Laid s.body.size t.body.size stmt.units layout := by
  cases stmt with
  | decl kind declarators place =>
      exact ((Declarator.builds_units declarators).stamped place).mono fun b _ s t _ h => h rfl
  | ret value place =>
      refine SourceUnit.builds_laid (.ret value place) ?_
      cases value with
      | none => exact (builds_emitted_confines (.ret none place) rfl (builds_emit _)).stamped place
      | some value =>
          have hvalue := builds_value_confines (.ret (some value) place) rfl value (fun _ => rfl)
            fun id => builds_emit (.ret (some id))
          exact (hvalue.stamped place).mono fun b _ s t _ h => h.2
  | expr value place =>
      refine SourceUnit.builds_laid (.expr value place) ?_
      refine (value.builds_lower.discard.stamped place).mono ?_
      rintro b _ s t _ ⟨id, hfound⟩
      exact .of_segment rfl hfound.segment
  | verbatim kind text place =>
      refine SourceUnit.builds_laid (.verbatim kind text place) ?_
      exact (builds_emitted_confines (.verbatim kind text place) rfl (builds_unsupported _ _ _)).stamped place

theorem builds_units_all (stmts : List Stmt) : Builds (lowerAll stmts) fun b s t _ =>
    ∃ layout, b.Laid s.body.size t.body.size (stmts.flatMap units) layout := by
  induction stmts with
  | nil => exact .pure fun b s => ⟨[], .nil b s.body.size⟩
  | cons stmt stmts ih =>
      refine stmt.builds_units.bind (fun _ => ih) ?_
      rintro b _ s t u _ _ ⟨layout, hlayout⟩ ⟨layout', hlayout'⟩
      exact ⟨_, hlayout.append hlayout'⟩

end Stmt

theorem Function.emitted_laid {f : Function} {log log' : Log} {body : Body} (h : f.lower log = .ok body log') :
    ∃ layout, body.Laid 0 body.size f.units layout := by
  obtain ⟨rfl, t, u, hparams, hrun, hu⟩ := lower_stages h
  obtain ⟨hpre, hpost⟩ := Stmt.builds_units_all f.body t () u hrun
  obtain ⟨layout, hlayout⟩ := hpost _ (f.emitted_backward log) (hu ▸ List.prefix_rfl)
  rw [hu] at hpre hlayout
  have hunit : (SourceUnit.params f.params).Confines (f.emitted log) 0 t.body.size := by
    intro j op _ hj ho hcall
    obtain ⟨op', ho'⟩ := Body.exists_op? hj
    obtain ⟨name, rfl⟩ := exists_param_of_op? hparams ho'
    obtain rfl := Option.some.inj ((Body.op?_of_isPrefix hpre ho').symm.trans ho)
    cases hcall
  have hfirst : (SourceUnit.params f.params).lower (f.blank log) = .ok () t := hparams
  exact ⟨_, (Body.Laid.single hfirst List.nil_prefix hpre hunit).append hlayout⟩

namespace Body

variable {b : Body} {c : Config}

theorem not_binds_of_memo {id : InstId} (h : (factsAt (b.analyze c) id).memo = true) : ¬ b.Binds id := by
  -- Only objects and calls are worth memoizing, and neither has a name.
  rintro ⟨op, ho, hbound⟩
  have hexpensive := ((memo_iff c ho).mp h).1
  cases op with
  | object | call => exact hbound rfl
  | param | constant | declare | read | ret => cases hexpensive

namespace Laid

variable {units : List SourceUnit} {layout : List Stretch} (h : b.Laid 0 b.size units layout)

include h

theorem exists_stretch {id : InstId} (hid : id < b.size) : ∃ stretch ∈ layout, id ∈ stretch.ids := by
  rw [← List.mem_flatMap, h.ids_eq, List.mem_range'_1]
  exact ⟨Nat.zero_le id, by lia⟩

theorem eq_of_mem_ids {stretch stretch' : Stretch} (hs : stretch ∈ layout) (hs' : stretch' ∈ layout) {id : InstId}
    (hid : id ∈ stretch.ids) (hid' : id ∈ stretch'.ids) : stretch = stretch' := by
  have hnodup : (layout.flatMap Stretch.ids).Nodup := h.ids_eq ▸ List.nodup_range'
  have hsymm : Std.Symm (Function.onFun List.Disjoint Stretch.ids) := ⟨fun _ _ hd => hd.symm⟩
  by_contra hne
  have hapart := (List.nodup_flatMap.mp hnodup).2.forall hs hs' hne
  exact hapart hid hid'

/-- A call that may change a value worth memoizing is in the unit of the value, with values only between the two. -/
theorem exists_stretch_of_interval {s : Span} (hs : MemoInterval (b.analyze c) s) :
    ∃ stretch ∈ layout, stretch.unit.evaluates = true ∧ (∀ id, s.contains id = true → id ∈ stretch.ids) ∧
      ∀ id, s.contains id = true → ∃ op, b.op? id = some op ∧ op.isValue = true := by
  obtain ⟨_, op, ho, hcall, hoperand⟩ := (mem_mutators_iff b c s.start s.stop).mp hs.2
  have hstop : s.stop < b.size := lt_size_of_op? ho
  obtain ⟨stretch, hstretch, hin⟩ := h.exists_stretch hstop
  obtain ⟨hlo, hhi⟩ := Stretch.mem_ids_iff.mp hin
  obtain ⟨hunit, hoperands, hvalues⟩ := h.confines stretch hstretch s.stop op hlo hhi ho hcall
  have hstart : stretch.start ≤ s.start := (hoperands s.start hoperand).resolve_right (not_binds_of_memo hs.1)
  refine ⟨stretch, hstretch, hunit, fun id hid => ?_, fun id hid => ?_⟩
  · obtain ⟨hge, hle⟩ := Span.contains_iff.mp hid
    exact Stretch.mem_ids_iff.mpr ⟨Nat.le_trans hstart hge, Nat.lt_of_le_of_lt hle hhi⟩
  · obtain ⟨hge, hle⟩ := Span.contains_iff.mp hid
    obtain ⟨op', ho'⟩ := exists_op? (Nat.lt_of_le_of_lt hle hstop)
    exact ⟨op', ho', hvalues id op' (Nat.le_trans hstart hge) hle ho'⟩

theorem exists_stretch_of_joined {p q : InstId} (hj : Span.Joined (MemoInterval (b.analyze c)) p q) :
    ∃ stretch ∈ layout, stretch.unit.evaluates = true ∧ p ∈ stretch.ids ∧ q ∈ stretch.ids := by
  -- The next interval shares an id with the unit so far, so it lies in the same unit.
  induction hj with
  | single hpq =>
      obtain ⟨s, hs, hp, hq⟩ := hpq
      obtain ⟨stretch, hstretch, hunit, hids, _⟩ := h.exists_stretch_of_interval hs
      exact ⟨stretch, hstretch, hunit, hids _ hp, hids _ hq⟩
  | tail _ hqr ih =>
      obtain ⟨s, hs, hq, hr⟩ := hqr
      obtain ⟨stretch, hstretch, hunit, hp, hq'⟩ := ih
      obtain ⟨stretch', hstretch', _, hids, _⟩ := h.exists_stretch_of_interval hs
      obtain rfl := h.eq_of_mem_ids hstretch hstretch' hq' (hids _ hq)
      exact ⟨stretch, hstretch, hunit, hp, hids _ hr⟩

end Laid

end Body

/-- The instructions of each unit of a function stand together, and every merged span lies in one declarator, return or
expression statement and holds values only. -/
theorem Function.spans_within_units (f : Function) (log log' : Log) (body : Body) (h : f.lower log = .ok body log') :
    ∃ layout : List Stretch, layout.map Stretch.unit = f.units ∧
      layout.flatMap Stretch.ids = List.range body.size ∧ (∀ stretch ∈ layout, stretch.IsLowered body) ∧
      ∀ c, ∀ span ∈ mergedSpans (body.analyze c),
        (∃ stretch ∈ layout, stretch.unit.evaluates = true ∧ stretch.start ≤ span.start ∧ span.stop < stretch.stop) ∧
        ∀ id ∈ span.ids, ∃ op, body.op? id = some op ∧ op.isValue = true := by
  obtain ⟨layout, hlayout⟩ := emitted_laid h
  have hb : body.Backward := (lower_stages h).1 ▸ f.emitted_backward log
  refine ⟨layout, hlayout.units_eq, hlayout.ids_eq.trans (List.range_eq_range' ..).symm, hlayout.isLowered, ?_⟩
  intro c span hspan
  have hmerge := Body.mergedSpans_analyze_isMerge hb c
  refine ⟨?_, fun id hid => ?_⟩
  · have hjoined := (hmerge.together_iff span.start span.stop).mp
      ⟨span, hspan, hmerge.contains_start hspan, hmerge.contains_stop hspan⟩
    obtain ⟨stretch, hstretch, hunit, hstart, hstop⟩ := hlayout.exists_stretch_of_joined hjoined
    exact ⟨stretch, hstretch, hunit, (Stretch.mem_ids_iff.mp hstart).1, (Stretch.mem_ids_iff.mp hstop).2⟩
  · obtain ⟨s, hs, hin⟩ := (hmerge.covered_iff id).mp ⟨span, hspan, Span.mem_ids_iff.mp hid⟩
    obtain ⟨_, _, _, _, hvalues⟩ := hlayout.exists_stretch_of_interval hs
    exact hvalues id hin

theorem span_of_mappedAndLogged : ∃ body log', mappedAndLogged.lower {} = .ok body log' ∧ body.size = 9 ∧
    mergedSpans (body.analyze {}) = [⟨7, 8⟩] ∧
    ∃ layout : List Stretch, layout.map Stretch.unit = mappedAndLogged.units ∧
      layout.flatMap Stretch.ids = [0, 1, 2, 3, 4, 5, 6, 7, 8] ∧
      ∃ stretch ∈ layout, stretch.IsLowered body ∧ stretch.unit.evaluates = true ∧ stretch.start ≤ 7 ∧ 8 < stretch.stop := by
  have hlower : mappedAndLogged.lower {} =
      .ok (mappedAndLogged.emitted {}) ⟨[⟨.info, "lowered `F`: 9 instructions"⟩]⟩ := by cbv
  have hspans : mergedSpans ((mappedAndLogged.emitted {}).analyze {}) = [⟨7, 8⟩] := by cbv
  have hsize : (mappedAndLogged.emitted {}).size = 9 := by cbv
  obtain ⟨layout, hunits, hids, hlowered, hall⟩ := Function.spans_within_units _ _ _ _ hlower
  rw [hsize] at hids
  obtain ⟨⟨stretch, hstretch, hunit, hstart, hstop⟩, _⟩ := hall {} ⟨7, 8⟩ (by simp [hspans])
  exact ⟨_, _, hlower, hsize, hspans, layout, hunits, hids, stretch, hstretch, hlowered stretch hstretch, hunit, hstart,
    hstop⟩

end Memoizer
