import NetSynth.Proofs.Commands
import NetSynth.Proofs.TypedComposites

/-! The synthesis of a well-typed expression does not stop, and the net of its value is as
declared. -/
namespace NetSynth

namespace Typed

open Conduct

variable {start : Design}

theorem Yields.of {expr : Expr} {build : Attempt NetId} {type : ValueType}
    (same : expr.netType = type)
    (yields : unstopped.Attempts start build fun after id => after.Carries id type) :
    Yields start ⟨expr, build⟩ := by
  subst same
  exact yields

/-- The rules fit together: a well-typed expression yields a net of its type. -/
theorem yields (valid : start.WellFormed) (generation : Generation) {expr : Expr}
    (typed : expr.WellTyped start) : Yields start ⟨expr, expr.build generation⟩ := by
  have root := valid.root
  induction typed with
  | @constant node value width domain =>
    refine Yields.of ?_ (Attempts.lift (Typed.constant root value node.signed node.span))
    rw [Expr.netType, Expr.node, width, domain]
    rfl
  | @real node value type =>
    exact Yields.of type (Attempts.lift (literal root value node.span))
  | @signal node id net known place type =>
    refine Yields.of type (Attempts.pure fun after grown => Design.Carries.grows ?_ grown)
    exact ⟨⟨net, known, rfl, place⟩, valid.scalar known⟩
  | @word node memory index net words known named place type _ _ inside ih =>
    exact word known named (valid.words known named) place ih inside type
  | sum _ _ numbers type wide ihLeft ihRight =>
    exact sum root ihLeft ihRight _ numbers type wide
  | arithmetic _ _ numbers type ihLeft ihRight =>
    exact arithmetic root ihLeft ihRight generation _ numbers type
  | bitwise _ _ domain widths ihLeft ihRight => exact bitwise ihLeft ihRight _ domain widths
  | compare _ _ numbers type ihLeft ihRight =>
    exact Yields.of type (compare root ihLeft ihRight _ numbers)
  | logical _ _ type single ihLeft ihRight =>
    exact Yields.of type (logical ihLeft ihRight _ single)
  | shift _ _ number domain width vector ihLeft ihRight =>
    exact shift ihLeft ihRight _ number domain width vector
  | negate => exact Attempts.reject _ _
  | invert _ domain width ih => exact invert ih domain width
  | reduce _ type ih => exact Yields.of type (fold ih _ _)
  | logicalNot _ type ih => exact Yields.of type (fold ih _ _)
  | @concat node parts repeats _ some vectors domain width ih =>
    change unstopped.Attempts start (Rule.concat node (Expr.operands generation parts) repeats) _
    rw [Expr.operands_eq_map]
    refine concat ?_ (by simpa using some) ?_ domain ?_
    · simpa using ih
    · simpa using vectors
    · simpa [Function.comp_def] using width
  | resize _ vector domain ih => exact resize ih vector domain
  | partSelect _ _ bits _ domain ihVector ihBase => exact partSelect ihVector ihBase bits domain
  | conditional _ _ _ _ single type ihCondition ihTrue ihFalse =>
    exact conditional ihCondition ihTrue ihFalse single type
  | @call node function scope arguments signature known named place arity type scalar _ ports ih =>
    change unstopped.Attempts start
      (Rule.call node function scope (Expr.operands generation arguments)) _
    rw [Expr.operands_eq_map]
    have result : signature.result.toValueType =
        (Expr.call node function scope arguments).netType := type.symm
    have scalar : signature.result.domain = .real → signature.result.width = 1 := by
      rwa [type] at scalar
    rw [← result]
    refine call ?_ known named place scalar (by simpa using arity) ?_
    · simpa using ih
    · intro argument port member
      rw [List.zip_map_left, List.mem_map] at member
      obtain ⟨⟨expr, port'⟩, listed, same⟩ := member
      cases same
      exact ports expr port' listed
  | systemCall => exact Attempts.reject _ _
  | parameter => exact Attempts.reject _ _
  | scopeRef => exact Attempts.reject _ _
  | event => exact Attempts.reject _ _

end Typed

/-- A request for a well-typed expression does not stop, and the net that it returns has the
declared width and domain, and the declared sign if nodes that hand on a net declare its sign. -/
theorem synthesize_wellTyped (rootName : String) (commands : List Command)
    (settings : SynthesisSettings) (expr : Expr)
    (typed : expr.WellTyped (Design.reached rootName commands)) :
    ∃ result after,
      (synthesize settings expr).runOn (Design.reached rootName commands) = (.ok result, after) ∧
      ∀ id, result = some id → ∃ net, after.net? id = some net ∧
        net.toValueType = ⟨expr.node.width, expr.node.domain, expr.netSigned⟩ ∧
        (expr.KeepsSign → net.toValueType = expr.node.toValueType) := by
  have steps := Design.reached_steps rootName commands
  have valid := steps.wellFormed (Design.wellFormed_empty rootName)
  have ended := @Typed.yields _ valid settings.generation expr typed [] _ (.refl _) trivial
  unfold Attempt.Ends Build.Ends at ended
  rw [synthesize]
  split at ended
  · rename_i result after ran
    refine ⟨result, after, ran, ?_⟩
    rintro id rfl
    obtain ⟨net, known, type, _⟩ := ended.2.2.stored
    exact ⟨net, known, type, fun keeps => type.trans keeps.netType_eq⟩
  · exact ended.2.elim

/-- The larger of a signal and a constant, one bit wider. -/
theorem synthesize_wellTyped_larger :
    let commands := [Command.addSignal .root "a" (.vector 4 true) .nowhere]
    let a := Expr.signal ⟨.vector 4 true, .nowhere⟩ ⟨0⟩
    let two := Expr.constant ⟨.vector 4 true, .nowhere⟩ (Bits.ofNat 2 4)
    let larger := Expr.conditional ⟨.vector 5 true, .nowhere⟩
      (.binary ⟨.bit, .nowhere⟩ (.compare .less) a two) two a
    larger.WellTyped (Design.reached "top" commands) ∧ ∃ result after,
      (synthesize {} larger).runOn (Design.reached "top" commands) = (.ok result, after) ∧
      ∀ id, result = some id → ∃ net, after.net? id = some net ∧
        net.toValueType = ⟨5, .logic, true⟩ := by
  intro commands a two larger
  have typed : larger.WellTyped (Design.reached "top" commands) := by
    have onA : a.WellTyped (Design.reached "top" commands) := .signal rfl rfl rfl
    have onTwo : two.WellTyped (Design.reached "top" commands) := .constant rfl rfl
    exact .conditional (.compare onA onTwo ⟨nofun, nofun⟩ rfl) onTwo onA rfl rfl
      fun _ _ => ⟨rfl, nofun⟩
  obtain ⟨result, after, ran, returned⟩ := synthesize_wellTyped "top" commands {} larger typed
  refine ⟨typed, result, after, ran, fun id same => ?_⟩
  obtain ⟨net, known, _, declared⟩ := returned id same
  exact ⟨net, known, declared trivial⟩

end NetSynth
