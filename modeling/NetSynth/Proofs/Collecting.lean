import NetSynth.Proofs.Generations
import NetSynth.Proofs.OrderIndependence

/-! Concatenations and calls try all of their parts before they fail. Each part is built once, in its
turn, and adds what it adds by itself; nothing follows when one of them has failed. -/
namespace NetSynth

def Design.newReports (before after : Design) : List Diagnostic :=
  after.log.held.toList.drop before.log.held.toList.length

/-- A part to be built, and the problem that is reported beside it where it fails. -/
structure Request where
  expr : Expr
  note : Option Problem

namespace Request

def attempt (generation : Generation) (request : Request) : Attempt NetId :=
  match request.note with
  | none => request.expr.build generation
  | some problem => (request.expr.build generation).orReport problem request.expr.span

/-- What is reported for the part where it is built by itself: its own messages, and then the note if
it fails. -/
def reports (design : Design) (generation : Generation) (request : Request) : List Diagnostic :=
  let run := (synthesize { generation } request.expr).runOn design
  let note := request.note.toList.map (·.diagnostic request.expr.span)
  design.newReports run.2 ++ if run.1.toOption = some none then note else []

def netCount (design : Design) (generation : Generation) (request : Request) : Nat :=
  ((synthesize { generation } request.expr).runOn design).2.nets.size - design.nets.size

def each (note : Nat → Option Problem) (parts : List Expr) : List Request :=
  parts.mapIdx fun place part => ⟨part, note place⟩

end Request

namespace Design

/-- The requests are made one after the other, each once, whatever became of those before it. -/
inductive InTurn (generation : Generation) :
    Design → List Request → List (Option NetId) → Design → Prop
  | nil {design : Design} : InTurn generation design [] [] design
  | cons {design mid after : Design} {request : Request} {rest : List Request}
      {result : Option NetId} {results : List (Option NetId)}
      (ran : (request.attempt generation).run.runOn design = (.ok result, mid))
      (turn : InTurn generation mid rest results after) :
      InTurn generation design (request :: rest) (result :: results) after

variable {before mid after design start : Design} {generation : Generation}
  {requests : List Request} {results : List (Option NetId)}

theorem newReports_append (grown : before.Grows mid) (more : mid.Grows after) :
    before.newReports after = before.newReports mid ++ mid.newReports after := by
  have count := grown.log.length_le
  obtain ⟨added, same⟩ := more.log
  rw [newReports, newReports, newReports, ← same, List.drop_append_of_le_length count,
    List.drop_left]

theorem newReports_adds {problems : List (Problem × Span)}
    (adds : before.log.Adds after.log problems) :
    before.newReports after = problems.map fun (problem, span) => problem.diagnostic span := by
  rw [newReports, adds.held, List.drop_left]

end Design

theorem mapM_id_cons {α : Type} (result : Option α) (rest : List (Option α)) :
    (result :: rest).mapM id = result.bind fun value => (rest.mapM id).map (value :: ·) := by
  rw [List.mapM_cons]
  cases result with
  | none => rfl
  | some value => cases rest.mapM id <;> rfl

theorem mapM_id_eq_some_iff {α : Type} {results : List (Option α)} {values : List α} :
    results.mapM id = some values ↔ results = values.map some := by
  induction results generalizing values with
  | nil => cases values <;> simp
  | cons result rest ih =>
    rw [mapM_id_cons]
    cases result <;> cases values <;> simp [ih, and_comm]

namespace Attempt

theorem run_all_cons {α : Type} (first : Attempt α) (rest : List (Attempt α)) (design : Design) :
    (all (first :: rest)).run.runOn design = match first.run.runOn design with
      | (.ok a, mid) => match (all rest).run.runOn mid with
        | (.ok as, after) => (.ok (a.bind fun a => as.map (a :: ·)), after)
        | (.error stop, after) => (.error stop, after)
      | (.error stop, mid) => (.error stop, mid) := by
  rw [all, run_bind, run_both]
  rcases first.run.runOn design with ⟨_ | _ | a, mid⟩
  · rfl
  · dsimp only
    rcases (all rest).run.runOn mid with ⟨_ | _ | as, after⟩ <;> rfl
  · dsimp only
    rcases (all rest).run.runOn mid with ⟨_ | _ | as, after⟩ <;> rfl

/-- All attempts end where the last of them does, and with a value if each of them has one. -/
theorem runOn_all_eq_ok_iff {generation : Generation} {requests : List Request}
    {design after : Design} {result : Option (List NetId)} :
    (all (requests.map (·.attempt generation))).run.runOn design = (.ok result, after) ↔
      ∃ results, design.InTurn generation requests results after ∧ results.mapM id = result := by
  induction requests generalizing design result with
  | nil =>
    constructor
    · intro ran
      cases ran
      exact ⟨[], .nil, rfl⟩
    · rintro ⟨_, ⟨⟩, rfl⟩
      rfl
  | cons request rest ih =>
    rw [List.map_cons, run_all_cons]
    constructor
    · intro ran
      split at ran
      · rename_i first mid ranFirst
        split at ran
        · rename_i others last ranRest
          cases ran
          obtain ⟨results, turn, rfl⟩ := ih.mp ranRest
          exact ⟨first :: results, .cons ranFirst turn, mapM_id_cons first results⟩
        · cases ran
      · cases ran
    · rintro ⟨_, turn, rfl⟩
      cases turn with
      | @cons _ mid _ _ _ first results ranFirst turn =>
        rw [ranFirst]
        dsimp only
        rw [ih.mpr ⟨results, turn, rfl⟩, mapM_id_cons]

end Attempt

namespace Design

variable {design start mid after : Design} {generation : Generation} {request : Request}
  {requests more : List Request} {results others : List (Option NetId)}

/-- The requests were made in turn from the design that has grown, and added what each of them adds
by itself to the first design. -/
structure Tallies (design start : Design) (generation : Generation) (requests : List Request)
    (results : List (Option NetId)) (after : Design) : Prop where
  turn : start.InTurn generation requests results after
  grows : start.Grows after
  endings : requests.map (fun request => (design.contribution generation request.expr).ending) =
    results.map fun result => some result.isSome
  reports : start.newReports after = requests.flatMap (·.reports design generation)
  kinds : (start.newDevices after).map Device.kind =
    requests.flatMap fun request => (design.contribution generation request.expr).kinds
  nets : after.nets.size = start.nets.size + (requests.map (·.netCount design generation)).sum

theorem InTurn.append (first : start.InTurn generation requests results mid)
    (rest : mid.InTurn generation more others after) :
    start.InTurn generation (requests ++ more) (results ++ others) after := by
  induction first with
  | nil => exact rest
  | cons ran _ ih => exact .cons ran (ih rest)

theorem InTurn.length_eq (turn : start.InTurn generation requests results after) :
    requests.length = results.length := by
  induction turn with
  | nil => rfl
  | cons _ _ ih => exact congrArg Nat.succ ih

theorem tallies_nil (design start : Design) : design.Tallies start generation [] [] start where
  turn := .nil
  grows := .refl start
  endings := rfl
  reports := by simp [newReports]
  kinds := by rw [newDevices_self]; rfl
  nets := rfl

theorem Tallies.append (first : design.Tallies start generation requests results mid)
    (rest : design.Tallies mid generation more others after) :
    design.Tallies start generation (requests ++ more) (results ++ others) after where
  turn := first.turn.append rest.turn
  grows := first.grows.trans rest.grows
  endings := by rw [List.map_append, List.map_append, first.endings, rest.endings]
  reports := by
    rw [newReports_append first.grows rest.grows, first.reports, rest.reports, List.flatMap_append]
  kinds := by
    rw [newDevices_append first.grows rest.grows, List.map_append, first.kinds, rest.kinds,
      List.flatMap_append]
  nets := by rw [rest.nets, first.nets, List.map_append, List.sum_append, Nat.add_assoc]

theorem runOn_attempt {result : Option NetId}
    (ran : (synthesize { generation } request.expr).runOn start = (.ok result, mid)) :
    ∃ after, (request.attempt generation).run.runOn start = (.ok result, after) ∧
      mid.Grows after ∧ mid.newDevices after = [] ∧ after.nets = mid.nets ∧
      mid.newReports after = if result = none then
        request.note.toList.map (·.diagnostic request.expr.span) else [] := by
  have unnoted : mid.Grows mid ∧ mid.newDevices mid = [] ∧ mid.nets = mid.nets ∧
      mid.newReports mid = [] := ⟨.refl mid, mid.newDevices_self, rfl, by simp [newReports]⟩
  rw [synthesize] at ran
  cases known : request.note with
  | none =>
    refine ⟨mid, ?_, ?_⟩
    · rw [Request.attempt, known]
      exact ran
    · simpa using unnoted
  | some problem =>
    have attempted := Attempt.run_orReport (request.expr.build generation) problem
      request.expr.span start
    rw [ran] at attempted
    cases result with
    | some id =>
      refine ⟨mid, ?_, ?_⟩
      · rw [Request.attempt, known]
        exact attempted
      · simpa using unnoted
    | none =>
      let noted := { mid with log := mid.log.report (problem.diagnostic request.expr.span) }
      have adds : mid.log.Adds noted.log _ := mid.log.adds_report problem request.expr.span
      refine ⟨noted, ?_, grows_report mid _, mid.newDevices_self, rfl, ?_⟩
      · rw [Request.attempt, known]
        exact attempted
      · simpa using newReports_adds adds

/-- A request comes to the same in a design that has grown. -/
theorem request_tallies (stores : design.StoresWords) (grown : design.Grows start)
    (covers : design.Covers request.expr)
    (returns : ((synthesize { generation } request.expr).runOn design).1.toOption.isSome) :
    ∃ result after, design.Tallies start generation [request] [result] after := by
  obtain ⟨ending, aligned⟩ := synthesize_mirrors stores grown { generation } covers
  have kinds := aligned.kinds
  have count := aligned.count
  have more := aligned.growsOne.net_count
  obtain ⟨problems, onOne, onTwo⟩ := aligned.log
  rcases ran : (synthesize { generation } request.expr).runOn design with ⟨_ | net, one⟩
  · rw [ran] at returns
    cases returns
  · rcases ran' : (synthesize { generation } request.expr).runOn start with ⟨_ | result, two⟩
    · rw [ran, ran'] at ending
      cases ending
    · rw [ran, ran'] at ending aligned
      rw [ran] at kinds count more onOne
      rw [ran'] at kinds count onTwo
      have same : result = net.map (design.rename start) := ending
      obtain ⟨after, attempted, grows, devices, nets, reports⟩ := runOn_attempt ran'
      refine ⟨result, after, .cons attempted .nil, aligned.growsTwo.trans grows, ?_, ?_, ?_, ?_⟩
      · cases net <;> simp [contribution, ran, same, Except.toOption]
      · rw [newReports_append aligned.growsTwo grows, newReports_adds onTwo, reports,
          List.flatMap_singleton, Request.reports, ran, newReports_adds onOne, same]
        cases net <;> simp [Except.toOption]
      · rw [newDevices_append aligned.growsTwo grows, devices, List.append_nil, kinds,
          List.flatMap_singleton, contribution, ran]
      · rw [nets, List.map_singleton, List.sum_singleton, Request.netCount, ran]
        dsimp only at count more ⊢
        omega

theorem requests_tally (stores : design.StoresWords) (grown : design.Grows start)
    (covers : ∀ request ∈ requests, design.Covers request.expr)
    (returns : ∀ request ∈ requests,
      ((synthesize { generation } request.expr).runOn design).1.toOption.isSome) :
    ∃ results after, design.Tallies start generation requests results after := by
  induction requests generalizing start with
  | nil => exact ⟨[], start, tallies_nil design start⟩
  | cons request rest ih =>
    rw [List.forall_mem_cons] at covers returns
    obtain ⟨result, mid, first⟩ := request_tallies stores grown covers.1 returns.1
    obtain ⟨results, after, others⟩ := ih (grown.trans first.grows) covers.2 returns.2
    exact ⟨[result] ++ results, after, first.append others⟩

end Design

/-- The nets that were built stand for the parts. -/
def Expr.named (parts : List Expr) (ids : List NetId) : List Expr :=
  List.zipWith (fun part id => .signal part.node id) parts ids

/-- A rule builds its parts in turn, each with the note of its place. Where one of them fails it adds
nothing of its own, and otherwise it goes on from their nets alone. -/
structure Design.Collects (design : Design) (settings : SynthesisSettings)
    (whole : List Expr → Expr) (note : Nat → Option Problem) (parts : List Expr)
    (results : List (Option NetId)) (after : Design) : Prop
    extends design.Tallies design settings.generation (Request.each note parts) results after where
  fails : none ∈ results →
    (synthesize settings (whole parts)).runOn design = (.ok none, after)
  builds : ∀ ids, results = ids.map some → (synthesize settings (whole parts)).runOn design =
    (synthesize settings (whole (Expr.named parts ids))).runOn after

section Collecting

variable {design after : Design} {settings : SynthesisSettings} {note : Nat → Option Problem}
  {parts : List Expr} {results : List (Option NetId)}
  {whole : List Expr → Expr} {next : List NetId → Attempt NetId}

/-- Nets that are named are found again without a change, whatever is noted about their places. -/
theorem Design.inTurn_named (design : Design) (generation : Generation) (parts : List Expr)
    (ids : List NetId) (same : parts.length = ids.length) (note : Nat → Option Problem) :
    design.InTurn generation (Request.each note (Expr.named parts ids)) (ids.map some) design := by
  induction ids generalizing parts note with
  | nil =>
    rw [Expr.named, List.zipWith_nil_right]
    exact .nil
  | cons id rest ih =>
    cases parts with
    | nil => cases same
    | cons part others =>
      have ran : (Expr.build generation (.signal part.node id)).run.runOn design =
          (.ok (some id), design) := by
        rw [Expr.build]
        rfl
      rw [Expr.named, List.zipWith_cons_cons, Request.each, List.mapIdx_cons, List.map_cons]
      apply InTurn.cons
      · rw [Request.attempt]
        cases note 0 with
        | none => exact ran
        | some problem =>
          dsimp only
          rw [Attempt.run_orReport, ran]
      · exact ih others (Nat.succ.inj same) fun place => note (place + 1)

/-- What makes a rule collect: on the parts and on their nets it goes on from all attempts alike. -/
theorem Design.Tallies.collects
    (tallies : design.Tallies design settings.generation (Request.each note parts) results after)
    (onParts : (synthesize settings (whole parts)).runOn design =
      (Attempt.all ((Request.each note parts).map (·.attempt settings.generation)) >>=
        next).run.runOn design)
    (onNets : ∀ ids, results = ids.map some → ∃ note',
      (synthesize settings (whole (Expr.named parts ids))).runOn after =
        (Attempt.all ((Request.each note' (Expr.named parts ids)).map
          (·.attempt settings.generation)) >>= next).run.runOn after) :
    design.Collects settings whole note parts results after where
  toTallies := tallies
  fails := by
    intro failed
    have none : results.mapM id = none := by
      cases joined : results.mapM id with
      | none => rfl
      | some ids => simp [mapM_id_eq_some_iff.mp joined] at failed
    rw [onParts, Attempt.run_bind, Attempt.runOn_all_eq_ok_iff.mpr ⟨results, tallies.turn, none⟩]
  builds := by
    intro ids built
    have count : parts.length = ids.length := by
      simpa [Request.each, built] using tallies.turn.length_eq
    obtain ⟨note', onNets⟩ := onNets ids built
    have again := after.inTurn_named settings.generation parts ids count note'
    rw [onParts, onNets, Attempt.run_bind, Attempt.run_bind,
      Attempt.runOn_all_eq_ok_iff.mpr ⟨results, tallies.turn, mapM_id_eq_some_iff.mpr built⟩,
      Attempt.runOn_all_eq_ok_iff.mpr ⟨_, again, mapM_id_eq_some_iff.mpr rfl⟩]

end Collecting

/-! ### Concatenations and calls -/

section Rules

variable {design after : Design} {settings : SynthesisSettings} {node : Node} {parts : List Expr}

theorem Rule.concat_attempts (node : Node) (repeats : Nat) : ∃ next : List NetId → Attempt NetId,
    ∀ operands, concat node operands repeats =
      Attempt.all (operands.map (·.build)) >>= next :=
  ⟨_, fun _ => rfl⟩

theorem Design.Tallies.collects_concat {results : List (Option NetId)}
    (tallies : design.Tallies design settings.generation (Request.each (fun _ => none) parts) results
      after) (repeats : Nat) :
    design.Collects settings (fun parts => .concat node parts repeats) (fun _ => none) parts results
      after := by
  obtain ⟨next, attempts⟩ := Rule.concat_attempts node repeats
  have run (design : Design) (parts : List Expr) :
      (synthesize settings (.concat node parts repeats)).runOn design =
        (Attempt.all ((Request.each (fun _ => none) parts).map (·.attempt settings.generation)) >>=
          next).run.runOn design := by
    have each : (Expr.operands settings.generation parts).map (·.build) =
        (Request.each (fun _ => none) parts).map (·.attempt settings.generation) := by
      apply List.ext_getElem
      · simp [Expr.operands_eq_map, Request.each]
      · simp [Expr.operands_eq_map, Request.each, Request.attempt]
    rw [synthesize, Expr.build, attempts, each]
  exact tallies.collects (run design parts) fun ids _ => ⟨_, run after _⟩

def Rule.argumentNote (name : String) (position : Nat) : Option Problem :=
  some (.unbuiltArgument position name)

variable {function : FunctionId} {scope : ScopeId} {signature : FunctionSignature} {name : String}

theorem Rule.runOn_call (known : design.function? function = some signature)
    (named : design.names.text? signature.result.name = some name)
    (arity : parts.length = signature.ports.length) :
    (synthesize settings (.call node function scope parts)).runOn design =
      (Attempt.all ((Request.each (argumentNote name) parts).map
        (·.attempt settings.generation)) >>= fun ids => (liftM (callWith node signature scope
          (Expr.operands settings.generation parts) ids) : Attempt NetId)).run.runOn design := by
  have each : (Expr.operands settings.generation parts).mapIdx (fun position argument =>
      argument.build.orReport (.unbuiltArgument position name) argument.expr.span) =
      (Request.each (argumentNote name) parts).map (·.attempt settings.generation) := by
    apply List.ext_getElem
    · simp [Expr.operands_eq_map, Request.each]
    · simp [Expr.operands_eq_map, Request.each, Request.attempt, argumentNote]
  rw [synthesize, Expr.build, call, Attempt.run_bind, Attempt.run_liftM,
    Build.runOn_functionOf known named]
  dsimp only
  rw [if_neg (by simpa [Expr.operands_eq_map] using arity), each]

theorem Design.Tallies.collects_call {results : List (Option NetId)}
    (known : design.function? function = some signature)
    (named : design.names.text? signature.result.name = some name)
    (arity : parts.length = signature.ports.length)
    (tallies : design.Tallies design settings.generation
      (Request.each (Rule.argumentNote name) parts) results after) :
    design.Collects settings (fun parts => .call node function scope parts)
      (Rule.argumentNote name) parts results after := by
  apply tallies.collects (Rule.runOn_call known named arity)
  intro ids built
  have count : parts.length = ids.length := by
    simpa [Request.each, built] using tallies.turn.length_eq
  have known' : after.function? function = some signature := by
    rw [tallies.grows.function, known]
  have arity' : (Expr.named parts ids).length = signature.ports.length := by
    simp [Expr.named, ← count, arity]
  have spans : (Expr.operands settings.generation (Expr.named parts ids)).map (·.expr.span) =
      (Expr.operands settings.generation parts).map (·.expr.span) := by
    apply List.ext_getElem
    · simp [Expr.operands_eq_map, Expr.named, ← count]
    · simp [Expr.operands_eq_map, Expr.named, Expr.span, Expr.node]
  use Rule.argumentNote name
  rw [Rule.runOn_call known' (tallies.grows.text? named) arity']
  simp only [Rule.callWith, Rule.fitArguments_congr _ _ spans]

end Rules

/-- Concatenations and calls that refer to objects of the design alone try every part in its turn,
and where one fails they report and add what the parts do by themselves, and nothing else. For a
call, each argument that fails is reported once more with its position. -/
theorem parts_collected (rootName : String) (commands : List Command)
    (settings : SynthesisSettings) :
    let design := Design.reached rootName commands
    let Returns := fun parts : List Expr => ∀ part ∈ parts, design.Covers part ∧
      ((synthesize settings part).runOn design).1.toOption.isSome
    (∀ node parts repeats, Returns parts → ∃ results after, design.Collects settings
      (fun parts => .concat node parts repeats) (fun _ => none) parts results after) ∧
    ∀ node function scope arguments signature name, design.function? function = some signature →
      design.names.text? signature.result.name = some name →
      arguments.length = signature.ports.length → Returns arguments →
      ∃ results after, design.Collects settings (fun parts => .call node function scope parts)
        (Rule.argumentNote name) arguments results after := by
  intro design Returns
  have valid := (Design.reached_steps rootName commands).wellFormed
    (Design.wellFormed_empty rootName)
  have tally {parts : List Expr} (returns : Returns parts) (note : Nat → Option Problem) :
      ∃ results after, design.Tallies design settings.generation (Request.each note parts) results
        after := by
    have listed (request : Request) (member : request ∈ Request.each note parts) :
        request.expr ∈ parts := by
      obtain ⟨place, inside, rfl⟩ := List.mem_mapIdx.mp member
      exact List.getElem_mem inside
    apply Design.requests_tally valid.storesWords (.refl design)
    · exact fun request member => (returns _ (listed request member)).1
    · exact fun request member => (returns _ (listed request member)).2
  constructor
  · intro node parts repeats returns
    obtain ⟨results, after, tallies⟩ := tally returns fun _ => none
    exact ⟨results, after, tallies.collects_concat repeats⟩
  · intro node function scope arguments signature name known named arity returns
    obtain ⟨results, after, tallies⟩ := tally returns _
    exact ⟨results, after, tallies.collects_call known named arity⟩

/-- Two events beside a signal, as parts of a concatenation and as arguments of a call. -/
theorem parts_collected_events :
    let design := Design.reached "top" [.addSignal .root "a" (.vector 4 false) .nowhere,
      .intern "f", .addFunction .root ⟨.vector 4 false, ⟨2⟩⟩ (.replicate 3 ⟨.vector 4 false, ⟨1⟩⟩)]
    let node : Node := ⟨.vector 6 false, .nowhere⟩
    let event := Expr.event ⟨.bit, .nowhere⟩
    let parts := [event, .signal ⟨.vector 4 false, .nowhere⟩ ⟨0⟩, event]
    design.names.text? ⟨2⟩ = some "f" ∧
    (∃ results after, none ∈ results ∧ design.Collects {} (fun parts => .concat node parts 1)
      (fun _ => none) parts results after) ∧
    ∃ results after, none ∈ results ∧ design.Collects {} (fun parts => .call node ⟨0⟩ .root parts)
      (Rule.argumentNote "f") parts results after := by
  intro design node event parts
  have returns : ∀ part ∈ parts, design.Covers part ∧
      ((synthesize {} part).runOn design).1.toOption.isSome := by
    have onEvent : design.Covers event :=
      ⟨by simp [event, Expr.nets], by simp [event, Expr.functions]⟩
    have onSignal : design.Covers (.signal ⟨.vector 4 false, .nowhere⟩ ⟨0⟩) :=
      ⟨by decide +kernel, by simp [Expr.functions]⟩
    simp only [parts, List.forall_mem_cons, List.not_mem_nil, false_implies, implies_true, and_true]
    exact ⟨⟨onEvent, rfl⟩, ⟨onSignal, rfl⟩, onEvent, rfl⟩
  -- The event is the first part, and by itself it fails.
  have fails {whole : List Expr → Expr} {note : Nat → Option Problem}
      {results : List (Option NetId)} {after : Design}
      (collects : design.Collects {} whole note parts results after) : none ∈ results := by
    have endings := collects.endings
    cases results with
    | nil => cases endings
    | cons result rest =>
      have first := (List.cons.inj endings).1
      cases result with
      | none => exact List.mem_cons_self
      | some id => cases first
  obtain ⟨onConcat, onCall⟩ := parts_collected "top"
    [.addSignal .root "a" (.vector 4 false) .nowhere, .intern "f",
      .addFunction .root ⟨.vector 4 false, ⟨2⟩⟩ (.replicate 3 ⟨.vector 4 false, ⟨1⟩⟩)] {}
  have named : design.names.text? ⟨2⟩ = some "f" := by decide +kernel
  refine ⟨named, ?_, ?_⟩
  · obtain ⟨results, after, collects⟩ := onConcat node parts 1 returns
    exact ⟨results, after, fails collects, collects⟩
  · obtain ⟨results, after, collects⟩ := onCall node ⟨0⟩ .root parts _ _ rfl named rfl returns
    exact ⟨results, after, fails collects, collects⟩

end NetSynth
