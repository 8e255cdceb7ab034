import NetSynth.Proofs.Commands
import NetSynth.Proofs.SingleDriver

/-! A limit on errors cuts a run short and changes nothing before the cut. The cut is at the first
place where the design has counted as many errors as the limit allows. -/
namespace NetSynth

/-- The design has counted as many errors as the limit allows. Without a limit it never has. -/
def Design.Reaches (design : Design) (limit : Option Nat) : Prop :=
  ∃ most, limit = some most ∧ most ≤ design.errorCount

/-- The first limit allows no more errors than the second. -/
def Tighter (tight loose : Option Nat) : Prop :=
  ∀ most, loose = some most → ∃ least, tight = some least ∧ least ≤ most

theorem Tighter.reaches {tight loose : Option Nat} {design : Design} (tighter : Tighter tight loose)
    (reached : design.Reaches loose) : design.Reaches tight := by
  obtain ⟨most, limited, le⟩ := reached
  obtain ⟨least, limited', less⟩ := tighter most limited
  exact ⟨least, limited', Nat.le_trans less le⟩

theorem exhausted_iff {generation : Generation} {limit : Option Nat} {design : Design} :
    SynthesisSettings.exhausted ⟨generation, limit⟩ design = true ↔ design.Reaches limit := by
  simp [SynthesisSettings.exhausted, Design.Reaches, Option.any_eq_true]

def requests (generation : Generation) (exprs : List Expr) : List (SynthesisSettings × Expr) :=
  exprs.map fun expr => ({ generation }, expr)

namespace Design

/-- The design just before the expression in a place, when all that stand before it were requested
in turn. -/
def before (design : Design) (generation : Generation) (exprs : List Expr) (place : Nat) : Design :=
  (design.synthesized (requests generation (exprs.take place))).2

/-- The place where a run is cut: every expression before it is tried, and none from there on. -/
structure CutAt (design : Design) (generation : Generation) (limit : Option Nat)
    (exprs : List Expr) (place : Nat) : Prop where
  inside : place ≤ exprs.length
  below : ∀ earlier < place, ¬(design.before generation exprs earlier).Reaches limit
  reached : place < exprs.length → (design.before generation exprs place).Reaches limit

/-- The expressions before a place were requested in turn, and none of the requests stopped. -/
def Tried (design : Design) (generation : Generation) (exprs : List Expr) (place : Nat)
    (nets : List (Option NetId)) : Prop :=
  (design.synthesized (requests generation (exprs.take place))).1 = nets.map .ok

/-- The expression in a place is the first whose request stops. -/
structure StopsAt (design : Design) (generation : Generation) (exprs : List Expr) (place : Nat)
    (stop : Stop) (after : Design) : Prop where
  tried : ∃ nets, design.Tried generation exprs place nets
  stopped : ∃ expr, exprs[place]? = some expr ∧
    (synthesize { generation } expr).runOn (design.before generation exprs place) =
      (.error stop, after)

variable {design : Design} {generation : Generation} {limit : Option Nat} {exprs rest : List Expr}
  {expr : Expr} {place : Nat}

theorem before_succ : design.before generation (expr :: rest) (place + 1) =
    ((synthesize { generation } expr).runOn design).2.before generation rest place := rfl

theorem tried_succ {net : Option NetId} {nets : List (Option NetId)} {mid : Design}
    (ran : (synthesize { generation } expr).runOn design = (.ok net, mid))
    (tried : mid.Tried generation rest place nets) :
    design.Tried generation (expr :: rest) (place + 1) (net :: nets) := by
  change ((synthesize { generation } expr).runOn design).1 ::
    (((synthesize { generation } expr).runOn design).2.synthesized
      (requests generation (rest.take place))).1 = _
  rw [ran, tried]
  rfl

theorem tried_succ_inv {nets : List (Option NetId)}
    (tried : design.Tried generation (expr :: rest) (place + 1) nets) : ∃ net others mid,
      nets = net :: others ∧ (synthesize { generation } expr).runOn design = (.ok net, mid) ∧
        mid.Tried generation rest place others := by
  change ((synthesize { generation } expr).runOn design).1 ::
    (((synthesize { generation } expr).runOn design).2.synthesized
      (requests generation (rest.take place))).1 = _ at tried
  cases nets with
  | nil => cases tried
  | cons net others =>
    obtain ⟨first, rest⟩ := List.cons.inj tried
    exact ⟨net, others, _, rfl, Prod.ext first rfl, rest⟩

theorem before_add (count : Nat) : design.before generation exprs (place + count) =
    (design.before generation exprs place).before generation (exprs.drop place) count := by
  induction place generalizing design exprs with
  | zero => rw [Nat.zero_add]; rfl
  | succ place ih =>
    cases exprs with
    | nil => simp [before, requests, synthesized]
    | cons expr rest => rw [Nat.add_right_comm, before_succ, ih, List.drop_succ_cons, before_succ]

theorem before_take {count : Nat} (le : place ≤ count) :
    design.before generation (exprs.take count) place = design.before generation exprs place := by
  rw [before, before, List.take_take, Nat.min_eq_left le]

/-- Every run has a place where it is cut, at the latest behind its last expression. -/
theorem exists_cutAt (design : Design) (generation : Generation) (limit : Option Nat)
    (exprs : List Expr) : ∃ place, design.CutAt generation limit exprs place := by
  induction exprs generalizing design with
  | nil => exact ⟨0, Nat.le_refl _, by simp, by simp⟩
  | cons expr rest ih =>
    by_cases reached : design.Reaches limit
    · exact ⟨0, Nat.zero_le _, by simp, fun _ => reached⟩
    · obtain ⟨place, inside, below, atPlace⟩ := ih ((synthesize { generation } expr).runOn design).2
      use place + 1
      constructor
      · exact Nat.succ_le_succ inside
      · intro earlier less
        cases earlier with
        | zero => exact reached
        | succ earlier =>
          rw [before_succ]
          exact below earlier (Nat.lt_of_succ_lt_succ less)
      · intro less
        rw [before_succ]
        exact atPlace (Nat.lt_of_succ_lt_succ less)

theorem CutAt.tail (cut : design.CutAt generation limit (expr :: rest) (place + 1)) :
    ((synthesize { generation } expr).runOn design).2.CutAt generation limit rest place := by
  constructor
  · exact Nat.le_of_succ_le_succ cut.inside
  · intro earlier less
    have below := cut.below (earlier + 1) (Nat.succ_lt_succ less)
    rwa [before_succ] at below
  · intro less
    have reached := cut.reached (Nat.succ_lt_succ less)
    rwa [before_succ] at reached

theorem CutAt.le {tight loose : Option Nat} {place' : Nat} (tighter : Tighter tight loose)
    (cut : design.CutAt generation tight exprs place)
    (cut' : design.CutAt generation loose exprs place') : place ≤ place' := by
  apply Nat.le_of_not_lt
  intro less
  apply cut.below place' less
  exact tighter.reaches (cut'.reached (Nat.lt_of_lt_of_le less cut.inside))

theorem CutAt.take (cut : design.CutAt generation limit exprs place) {count : Nat}
    (le : count ≤ place) : design.CutAt generation limit (exprs.take count) count := by
  have length : (exprs.take count).length = count := by
    rw [List.length_take, Nat.min_eq_left (Nat.le_trans le cut.inside)]
  constructor
  · exact Nat.le_of_eq length.symm
  · intro earlier less
    rw [before_take (Nat.le_of_lt less)]
    exact cut.below earlier (Nat.lt_of_lt_of_le less le)
  · intro less
    omega

theorem CutAt.drop (cut : design.CutAt generation limit exprs place) {count : Nat}
    (le : count ≤ place) : (design.before generation exprs count).CutAt generation limit
      (exprs.drop count) (place - count) := by
  have inside := cut.inside
  constructor
  · rw [List.length_drop]
    omega
  · intro earlier less
    rw [← before_add]
    apply cut.below
    omega
  · rw [List.length_drop, ← before_add, Nat.add_sub_cancel' le]
    intro less
    apply cut.reached
    omega

theorem length_synthesized (calls : List (SynthesisSettings × Expr)) (design : Design) :
    (design.synthesized calls).1.length = calls.length := by
  induction calls generalizing design with
  | nil => rfl
  | cons call rest ih => exact congrArg Nat.succ (ih _)

theorem synthesized_take (calls : List (SynthesisSettings × Expr)) (count : Nat) (design : Design) :
    (design.synthesized (calls.take count)).1 = (design.synthesized calls).1.take count := by
  induction calls generalizing design count with
  | nil => simp [synthesized]
  | cons call rest ih =>
    cases count with
    | zero => rfl
    | succ count => exact congrArg (List.cons _) (ih count _)

theorem synthesized_drop (calls : List (SynthesisSettings × Expr)) (count : Nat) (design : Design) :
    ((design.synthesized (calls.take count)).2.synthesized (calls.drop count)).1 =
      (design.synthesized calls).1.drop count := by
  induction calls generalizing design count with
  | nil => simp [synthesized]
  | cons call rest ih =>
    cases count with
    | zero => rfl
    | succ count => exact ih count _

theorem Tried.length {nets : List (Option NetId)}
    (tried : design.Tried generation exprs place nets) (inside : place ≤ exprs.length) :
    nets.length = place := by
  have count := congrArg List.length tried
  simp only [length_synthesized, requests, List.length_map, List.length_take] at count
  omega

theorem Tried.take {nets : List (Option NetId)}
    (tried : design.Tried generation exprs place nets) {count : Nat} (le : count ≤ place) :
    design.Tried generation exprs count (nets.take count) := by
  rw [Tried, requests, List.map_take, synthesized_take] at tried ⊢
  rw [List.map_take, ← tried, List.take_take, Nat.min_eq_left le]

theorem Tried.drop {nets : List (Option NetId)}
    (tried : design.Tried generation exprs place nets) (count : Nat) :
    (design.before generation exprs count).Tried generation (exprs.drop count) (place - count)
      (nets.drop count) := by
  rw [Tried, requests, List.map_take, synthesized_take] at tried ⊢
  rw [before, requests, List.map_take, List.map_drop, synthesized_drop, List.map_drop, ← tried,
    List.drop_take]

/-- Of the requests before a place either none stops or there is a first one that does. -/
theorem tried_or_stopsAt (design : Design) (generation : Generation) {exprs : List Expr}
    {place : Nat} (inside : place ≤ exprs.length) :
    (∃ nets, design.Tried generation exprs place nets) ∨
      ∃ earlier < place, ∃ stop after, design.StopsAt generation exprs earlier stop after := by
  induction place generalizing design exprs with
  | zero => exact .inl ⟨[], rfl⟩
  | succ place ih =>
    cases exprs with
    | nil => exact absurd inside (Nat.not_succ_le_zero _)
    | cons expr rest =>
      rcases ran : (synthesize { generation } expr).runOn design with ⟨stop | net, mid⟩
      · exact .inr ⟨0, Nat.succ_pos _, stop, mid, ⟨[], rfl⟩, expr, rfl, ran⟩
      · rcases ih mid (Nat.le_of_succ_le_succ inside) with
          ⟨nets, tried⟩ | ⟨earlier, less, stop, after, ⟨nets, tried⟩, other, listed, stopped⟩
        · exact .inl ⟨net :: nets, tried_succ ran tried⟩
        · refine .inr ⟨earlier + 1, Nat.succ_lt_succ less, stop, after, ⟨_, tried_succ ran tried⟩,
            other, listed, ?_⟩
          rw [before_succ, ran]
          exact stopped

end Design

variable {design after : Design} {generation : Generation} {limit : Option Nat} {expr : Expr}
  {exprs rest : List Expr} {place : Nat}

theorem runOn_synthesizeEach_of_reaches (reached : design.Reaches limit) :
    (synthesizeEach ⟨generation, limit⟩ exprs).runOn design =
      (.ok (List.replicate exprs.length .skipped), design) := by
  cases exprs with
  | nil => rfl
  | cons expr rest =>
    rw [synthesizeEach, Build.runOn_bind]
    change Build.runOn (if SynthesisSettings.exhausted _ _ = true then _ else _) design = _
    rw [if_pos (exhausted_iff.mpr reached)]
    rfl

theorem runOn_synthesizeEach_of_below (below : ¬design.Reaches limit) :
    (synthesizeEach ⟨generation, limit⟩ (expr :: rest)).runOn design =
      match (synthesize { generation } expr).runOn design with
      | (.error stop, after) => (.error stop, after)
      | (.ok net, mid) => match (synthesizeEach ⟨generation, limit⟩ rest).runOn mid with
        | (.error stop, after) => (.error stop, after)
        | (.ok outcomes, after) => (.ok (.ofNet? net :: outcomes), after) := by
  rw [synthesizeEach, Build.runOn_bind]
  change Build.runOn (if SynthesisSettings.exhausted _ _ = true then _ else _) design = _
  have same : (synthesize ⟨generation, limit⟩ expr).runOn design =
      (synthesize { generation } expr).runOn design := rfl
  rw [if_neg (mt exhausted_iff.mp below), Build.runOn_bind, same]
  rcases (synthesize { generation } expr).runOn design with ⟨_ | net, mid⟩
  · rfl
  · dsimp only
    rw [Build.runOn_bind]
    rcases (synthesizeEach ⟨generation, limit⟩ rest).runOn mid with ⟨_ | outcomes, after⟩ <;> rfl

/-- The outcomes of the requests that were tried, and then of those that were not. -/
def cutOutcomes (nets : List (Option NetId)) (untried : Nat) : List Outcome :=
  nets.map .ofNet? ++ List.replicate untried .skipped

section Outcomes

variable {nets : List (Option NetId)} {untried : Nat}

theorem length_cutOutcomes : (cutOutcomes nets untried).length = nets.length + untried := by
  simp [cutOutcomes]

theorem cutOutcomes_take (le : place ≤ nets.length) :
    (cutOutcomes nets untried).take place = (nets.take place).map .ofNet? := by
  rw [cutOutcomes, List.take_append_of_le_length (by simpa using le), List.map_take]

theorem cutOutcomes_drop (le : place ≤ nets.length) :
    (cutOutcomes nets untried).drop place = cutOutcomes (nets.drop place) untried := by
  rw [cutOutcomes, List.drop_append_of_le_length (by simpa using le), cutOutcomes, List.map_drop]

theorem skipped_not_mem_map : .skipped ∉ nets.map Outcome.ofNet? := by
  rw [List.mem_map]
  rintro ⟨_ | net, _, same⟩ <;> cases same

end Outcomes

theorem runOn_synthesizeEach_of_tried (cut : design.CutAt generation limit exprs place)
    {nets : List (Option NetId)} (tried : design.Tried generation exprs place nets) :
    (synthesizeEach ⟨generation, limit⟩ exprs).runOn design =
      (.ok (cutOutcomes nets (exprs.length - place)), design.before generation exprs place) := by
  induction place generalizing design exprs nets with
  | zero =>
    obtain rfl : nets = [] := List.map_eq_nil_iff.mp tried.symm
    cases exprs with
    | nil => rfl
    | cons expr rest => exact runOn_synthesizeEach_of_reaches (cut.reached (Nat.succ_pos _))
  | succ place ih =>
    cases exprs with
    | nil => exact absurd cut.inside (Nat.not_succ_le_zero _)
    | cons expr rest =>
      obtain ⟨net, others, mid, rfl, ran, tried⟩ := Design.tried_succ_inv tried
      have below : ¬design.Reaches limit := cut.below 0 (Nat.succ_pos _)
      have cut' := cut.tail
      rw [ran] at cut'
      rw [runOn_synthesizeEach_of_below below, Design.before_succ, ran]
      dsimp only
      rw [ih cut' tried]
      simp only [cutOutcomes, List.map_cons, List.cons_append, List.length_cons,
        Nat.add_sub_add_right]

theorem runOn_synthesizeEach_of_stopsAt
    (below : ∀ earlier ≤ place, ¬(design.before generation exprs earlier).Reaches limit)
    {stop : Stop} (stops : design.StopsAt generation exprs place stop after) :
    (synthesizeEach ⟨generation, limit⟩ exprs).runOn design = (.error stop, after) := by
  have here : ¬design.Reaches limit := below 0 (Nat.zero_le _)
  induction place generalizing design exprs with
  | zero =>
    obtain ⟨_, expr, listed, stopped⟩ := stops
    cases exprs with
    | nil => cases listed
    | cons first rest =>
      obtain rfl := Option.some.inj listed
      change (synthesize { generation } first).runOn design = _ at stopped
      rw [runOn_synthesizeEach_of_below here, stopped]
  | succ place ih =>
    obtain ⟨⟨nets, tried⟩, expr, listed, stopped⟩ := stops
    cases exprs with
    | nil => cases listed
    | cons first rest =>
      obtain ⟨net, others, mid, rfl, ran, tried⟩ := Design.tried_succ_inv tried
      rw [Design.before_succ, ran] at stopped
      have belowRest : ∀ earlier ≤ place, ¬(mid.before generation rest earlier).Reaches limit := by
        intro earlier le
        have here := below (earlier + 1) (Nat.succ_le_succ le)
        rwa [Design.before_succ, ran] at here
      have run := ih belowRest ⟨⟨others, tried⟩, expr, listed, stopped⟩
        (belowRest 0 (Nat.zero_le _))
      rw [runOn_synthesizeEach_of_below here, ran]
      dsimp only
      rw [run]

/-- A run stops exactly where the first expression does that it tries, and leaves the design as that
expression left it. -/
theorem runOn_synthesizeEach_eq_error_iff {stop : Stop} :
    (synthesizeEach ⟨generation, limit⟩ exprs).runOn design = (.error stop, after) ↔
      ∃ place, (∀ earlier ≤ place, ¬(design.before generation exprs earlier).Reaches limit) ∧
        design.StopsAt generation exprs place stop after := by
  constructor
  · intro ran
    obtain ⟨place, cut⟩ := design.exists_cutAt generation limit exprs
    rcases design.tried_or_stopsAt generation cut.inside with
      ⟨nets, tried⟩ | ⟨earlier, less, stop', after', stops⟩
    · rw [runOn_synthesizeEach_of_tried cut tried] at ran
      cases ran
    · have below : ∀ other ≤ earlier, ¬(design.before generation exprs other).Reaches limit :=
        fun other le => cut.below other (Nat.lt_of_le_of_lt le less)
      rw [runOn_synthesizeEach_of_stopsAt below stops] at ran
      cases ran
      exact ⟨earlier, below, stops⟩
  · rintro ⟨place, below, stops⟩
    exact runOn_synthesizeEach_of_stopsAt below stops

theorem tried_of_runOn (cut : design.CutAt generation limit exprs place) {outcomes : List Outcome}
    (ran : (synthesizeEach ⟨generation, limit⟩ exprs).runOn design = (.ok outcomes, after)) :
    ∃ nets, design.Tried generation exprs place nets := by
  rcases design.tried_or_stopsAt generation cut.inside with tried | ⟨earlier, less, stop, _, stops⟩
  · exact tried
  · rw [runOn_synthesizeEach_of_stopsAt
      (fun other le => cut.below other (Nat.lt_of_le_of_lt le less)) stops] at ran
    cases ran

/-- Two runs of the same expressions. The one with the tighter limit is cut at a place and leaves
the design as it stands there, which is also where the other run gets with as many expressions and
from where it goes on. -/
structure Truncates (design : Design) (generation : Generation) (tight loose : Option Nat)
    (exprs : List Expr) (report : RunReport) (after : Design) (report' : RunReport)
    (place : Nat) : Prop where
  cut : design.CutAt generation tight exprs place
  ran : (synthesizeAll ⟨generation, tight⟩ exprs).runOn design =
    (.ok report', design.before generation exprs place)
  outcomes : report'.outcomes =
    report.outcomes.take place ++ List.replicate (exprs.length - place) .skipped
  complete : report.outcomes.length = exprs.length ∧ report'.outcomes.length = exprs.length
  noneSkipped : .skipped ∉ report'.outcomes.take place
  errors : report'.errors = (design.before generation exprs place).errorCount
  requested : ∃ nets, design.Tried generation exprs place nets ∧
    report.outcomes.take place = nets.map .ofNet?
  reaches : (synthesizeAll ⟨generation, loose⟩ (exprs.take place)).runOn design =
    (.ok ⟨report.outcomes.take place, report'.errors⟩, design.before generation exprs place)
  resumes : (synthesizeAll ⟨generation, loose⟩ (exprs.drop place)).runOn
    (design.before generation exprs place) =
      (.ok ⟨report.outcomes.drop place, report.errors⟩, after)

theorem runOn_synthesizeAll (settings : SynthesisSettings) :
    (synthesizeAll settings exprs).runOn design =
      match (synthesizeEach settings exprs).runOn design with
      | (.error stop, after) => (.error stop, after)
      | (.ok outcomes, after) => (.ok ⟨outcomes, after.errorCount⟩, after) := by
  rw [synthesizeAll, Build.runOn_bind]
  rcases (synthesizeEach settings exprs).runOn design with ⟨_ | outcomes, after⟩ <;> rfl

theorem runOn_synthesizeAll_of_tried (cut : design.CutAt generation limit exprs place)
    {nets : List (Option NetId)} (tried : design.Tried generation exprs place nets) :
    (synthesizeAll ⟨generation, limit⟩ exprs).runOn design =
      (.ok ⟨cutOutcomes nets (exprs.length - place),
        (design.before generation exprs place).errorCount⟩,
          design.before generation exprs place) := by
  rw [runOn_synthesizeAll, runOn_synthesizeEach_of_tried cut tried]

theorem truncates {tight loose : Option Nat} (tighter : Tighter tight loose) {report : RunReport}
    (ran : (synthesizeAll ⟨generation, loose⟩ exprs).runOn design = (.ok report, after)) :
    ∃ place report', Truncates design generation tight loose exprs report after report' place := by
  obtain ⟨last, cutLast⟩ := design.exists_cutAt generation loose exprs
  obtain ⟨place, cut⟩ := design.exists_cutAt generation tight exprs
  have le := cut.le tighter cutLast
  have inside := cutLast.inside
  obtain ⟨nets, tried⟩ : ∃ nets, design.Tried generation exprs last nets := by
    rw [runOn_synthesizeAll] at ran
    split at ran
    · cases ran
    · rename_i outcomes mid ranEach
      exact tried_of_runOn cutLast ranEach
  have length := tried.length inside
  rw [runOn_synthesizeAll_of_tried cutLast tried] at ran
  cases ran
  have first := tried.take le
  have lengthFirst := first.length cut.inside
  have taken : (cutOutcomes nets (exprs.length - last)).take place =
      (nets.take place).map .ofNet? :=
    cutOutcomes_take (length ▸ le)
  use place, ⟨cutOutcomes (nets.take place) (exprs.length - place),
    (design.before generation exprs place).errorCount⟩
  constructor
  · exact cut
  · exact runOn_synthesizeAll_of_tried cut first
  · rw [taken, cutOutcomes]
  · have cutInside := cut.inside
    rw [length_cutOutcomes, length_cutOutcomes, length, lengthFirst]
    omega
  · rw [cutOutcomes_take (Nat.le_of_eq lengthFirst.symm)]
    exact skipped_not_mem_map
  · rfl
  · exact ⟨_, first, taken⟩
  · -- With the expressions before the cut alone the looser limit is not reached either.
    have untried : (exprs.take place).length - place = 0 := by
      rw [List.length_take]
      omega
    have again : design.Tried generation (exprs.take place) place (nets.take place) := by
      rw [Design.Tried, List.take_take, Nat.min_self]
      exact first
    have run := runOn_synthesizeAll_of_tried (cutLast.take le) again
    rw [untried, Design.before_take (Nat.le_refl _)] at run
    rw [run, taken, cutOutcomes, List.replicate_zero, List.append_nil]
  · have untried : (exprs.drop place).length - (last - place) = exprs.length - last := by
      rw [List.length_drop]
      omega
    have run := runOn_synthesizeAll_of_tried (cutLast.drop le) (tried.drop place)
    rw [run, untried, cutOutcomes_drop (length ▸ le), ← Design.before_add, Nat.add_sub_cancel' le]

/-- A run that ends under one limit also ends under a tighter one, with the same outcomes up to the
first place where the tighter limit is reached and everything skipped from there on, and it leaves
the design as it stands at that place. Under any limit a run stops exactly where an expression stops
that it tries, and leaves the design as that expression left it. -/
theorem error_limit_truncates (design : Design) (generation : Generation) (exprs : List Expr) :
    (∀ tight loose report after, Tighter tight loose →
      (synthesizeAll ⟨generation, loose⟩ exprs).runOn design = (.ok report, after) →
      ∃ place report', Truncates design generation tight loose exprs report after report' place) ∧
    ∀ limit stop after,
      (synthesizeAll ⟨generation, limit⟩ exprs).runOn design = (.error stop, after) ↔
        ∃ place, (∀ earlier ≤ place, ¬(design.before generation exprs earlier).Reaches limit) ∧
          design.StopsAt generation exprs place stop after := by
  constructor
  · intro tight loose report after tighter ran
    exact truncates tighter ran
  · intro limit stop after
    rw [← runOn_synthesizeEach_eq_error_iff, runOn_synthesizeAll]
    rcases (synthesizeEach ⟨generation, limit⟩ exprs).runOn design with ⟨_ | outcomes, mid⟩ <;> simp

/-- The first of three expressions fails, and one error is too many for the other two. -/
theorem error_limit_truncates_second :
    let design := Design.reached "top" [.addSignal .root "a" (.vector 4 false) .nowhere]
    let event := Expr.event ⟨.bit, .nowhere⟩
    let exprs := [event, .signal ⟨.vector 4 false, .nowhere⟩ ⟨0⟩, event]
    ∃ report after report' place,
      (synthesizeAll ⟨.v2001, none⟩ exprs).runOn design = (.ok report, after) ∧
      report.outcomes = [.failed, .built ⟨0⟩, .failed] ∧
      Truncates design .v2001 (some 1) none exprs report after report' place ∧
      report' = ⟨[.failed, .skipped, .skipped], 1⟩ := by
  intro design event exprs
  have result : ((synthesizeAll ⟨.v2001, none⟩ exprs).runOn design).1.toOption =
      some ⟨[.failed, .built ⟨0⟩, .failed], 2⟩ := by decide +kernel
  have tight : ((synthesizeAll ⟨.v2001, some 1⟩ exprs).runOn design).1.toOption =
      some ⟨[.failed, .skipped, .skipped], 1⟩ := by decide +kernel
  rcases ran : (synthesizeAll ⟨.v2001, none⟩ exprs).runOn design with ⟨outcome, after⟩
  rw [ran] at result
  cases outcome with
  | error stop => cases result
  | ok report =>
    obtain rfl := Option.some.inj result
    obtain ⟨place, report', truncates⟩ :=
      (error_limit_truncates design .v2001 exprs).1 (some 1) none _ after nofun ran
    rw [truncates.ran] at tight
    exact ⟨_, after, report', place, rfl, rfl, truncates, Option.some.inj tight⟩

end NetSynth
