import NetSynth.Proofs.Commands
import NetSynth.Proofs.Expressions

/-! The pins that real nets are connected to. Which pins may carry a real value is fixed by the kind
of the device, and on some others nothing keeps a real net away. -/
namespace NetSynth

namespace DeviceKind

/-- The pins on which a device takes or gives a real value. -/
def carriesReal : DeviceKind → PinName → Bool
  | .addSub .., .dataA | .addSub .., .dataB | .addSub .., .result => true
  | .arithmetic .., .dataA | .arithmetic .., .dataB | .arithmetic .., .result => true
  | .compare .., .dataA | .compare .., .dataB => true
  | .mux .., .data _ | .mux .., .result => true
  | .literal _, .output => true
  | .call .., _ => true
  | _, _ => false

/-- The pins for vectors that no rule and no check keeps real nets away from. -/
def unguarded : DeviceKind → PinName → Bool
  | .concat .., _ | .partSelect .., _ => true
  | .mux .., .select => true
  | .memoryRead .., .address => true
  | _, _ => false

end DeviceKind

namespace Design

/-- Whether the net carries a real value. -/
def isReal (design : Design) (id : NetId) : Bool := (design.net? id).any (·.domain.isReal)

/-- Real nets are connected to allowed pins only. -/
def RealsWithin (design : Design) (allowed : DeviceKind → PinName → Bool) : Prop :=
  ∀ ⦃id device⦄, design.device? id = some device → ∀ connection ∈ device.connections,
    design.isReal connection.ref.net = true → allowed device.kind connection.pin = true

/-- Real nets are connected only to pins that carry real values. -/
def RealsInPlace (design : Design) : Prop := design.RealsWithin DeviceKind.carriesReal

/-- Real nets are connected only to pins that carry real values, or that nothing guards. -/
def RealsConfined (design : Design) : Prop :=
  design.RealsWithin fun kind pin => kind.carriesReal pin || kind.unguarded pin

variable {design before after : Design} {allowed : DeviceKind → PinName → Bool} {id : NetId}

theorem realsWithin_iff : design.RealsWithin allowed ↔ ∀ device ∈ design.devices,
    ∀ connection ∈ device.connections, design.isReal connection.ref.net = true →
      allowed device.kind connection.pin = true := by
  constructor
  · intro within device member
    obtain ⟨place, stored⟩ := Array.mem_iff_getElem?.mp member
    exact @within ⟨place⟩ device stored
  · exact fun within id device stored => within device (Array.mem_of_getElem? stored)

theorem realsWithin_empty (rootName : String) (allowed : DeviceKind → PinName → Bool) :
    (empty rootName).RealsWithin allowed := by
  intro id device stored
  simp [device?, empty] at stored

instance : Decidable (design.RealsWithin allowed) := decidable_of_iff _ realsWithin_iff.symm

instance : Decidable design.RealsInPlace := inferInstanceAs (Decidable (design.RealsWithin _))

theorem isReal_of {net : Net} (known : design.net? id = some net) :
    design.isReal id = net.domain.isReal := by
  rw [isReal, known, Option.any_some]

theorem isReal_iff_shownDomain {ref : NetRef} :
    design.isReal ref.net = true ↔ design.shownDomain ref = .real := by
  rw [isReal, shownDomain]
  cases design.net? ref.net <;> simp [Domain.isReal]

theorem KeepsTypes.isReal (types : before.KeepsTypes after) (known : (before.net? id).isSome) :
    after.isReal id = before.isReal id := by
  obtain ⟨net, stored⟩ := Option.isSome_iff_exists.mp known
  obtain ⟨net', stored', type, _⟩ := types stored
  rw [isReal_of stored, isReal_of stored', congrArg ValueType.domain type]

theorem KeepsTypes.real (types : before.KeepsTypes after) (real : before.isReal id = true) :
    after.isReal id = true := by
  obtain ⟨net, stored, _⟩ := (Option.any_eq_true _ _).mp real
  exact (types.isReal (Option.isSome_iff_exists.mpr ⟨net, stored⟩)).trans real

theorem Grows.isReal (grown : before.Grows after) (real : before.isReal id = true) :
    after.isReal id = true := grown.keepsTypes.real real

theorem RealsWithin.earlier (within : after.RealsWithin allowed) (grown : before.Grows after) :
    before.RealsWithin allowed :=
  fun _ _ stored connection member real =>
    within (grown.device stored) connection member (grown.isReal real)

/-- Without new devices nothing is connected anew. -/
theorem RealsWithin.of_devices (within : before.RealsWithin allowed) (valid : before.WellFormed)
    (types : before.KeepsTypes after) (devices : after.devices = before.devices) :
    after.RealsWithin allowed := by
  intro id device stored connection member real
  rw [device?, devices] at stored
  obtain ⟨net, known, _⟩ := (valid.contract stored).refs connection member
  rw [types.isReal (Option.isSome_iff_exists.mpr ⟨net, known⟩)] at real
  exact within stored connection member real

theorem RealsWithin.pushDevice (within : design.RealsWithin allowed) (scope : ScopeId) (name : Name)
    (kind : DeviceKind) (connections : List Connection) (span : Span)
    (new : ∀ connection ∈ connections, design.isReal connection.ref.net = true →
      allowed kind connection.pin = true) :
    (design.pushDevice scope name kind connections span).2.RealsWithin allowed := by
  have same : ∀ id, (design.pushDevice scope name kind connections span).2.isReal id =
      design.isReal id := by
    intro id
    rw [isReal, net?_pushDevice, isReal]
    cases design.net? id <;> rfl
  intro id device stored connection member real
  rw [same] at real
  rw [device?_pushDevice] at stored
  split at stored
  · cases stored
    rw [Device.connections_mk, DeviceKind.map_connect] at member
    exact new connection member real
  · exact within stored connection member real

end Design

namespace Expr

mutual

/-- Whether the net of an expression is real once it is built. Sums and arithmetic follow their left
operand, which becomes a real number beside a real one. -/
def buildsReal (design : Design) : Expr → Bool
  | real .. => true
  | binary _ (.sum _) left right | binary _ (.arithmetic _) left right =>
      right.isReal && !left.isReal || buildsReal design left
  | concat _ parts _ => (realParts design parts).headD false
  | resize _ operand | partSelect _ operand _ | conditional _ _ operand _ =>
      buildsReal design operand
  | signal _ net => design.isReal net
  | call _ function _ _ => (design.function? function).any (·.result.domain.isReal)
  | _ => false

def realParts (design : Design) : List Expr → List Bool
  | [] => []
  | first :: rest => buildsReal design first :: realParts design rest

end

mutual

/-- Whether a part of the expression has a real net that belongs on a pin for vectors: in a
concatenation, as the vector or the base of a part-select, as a condition or as an index. -/
def misplacesReal (design : Design) : Expr → Bool
  | unary _ _ operand | resize _ operand => misplacesReal design operand
  | binary _ _ left right => misplacesReal design left || misplacesReal design right
  | concat _ parts repeats =>
      misplacesRealIn design parts || repeats != 0 && (realParts design parts).any id
  | partSelect _ vector base => misplacesReal design vector || misplacesReal design base ||
      buildsReal design vector || buildsReal design base
  | conditional _ condition whenTrue whenFalse => misplacesReal design condition ||
      misplacesReal design whenTrue || misplacesReal design whenFalse || buildsReal design condition
  | word _ _ index => misplacesReal design index || buildsReal design index
  | call _ _ _ arguments => misplacesRealIn design arguments
  | _ => false

def misplacesRealIn (design : Design) : List Expr → Bool
  | [] => false
  | first :: rest => misplacesReal design first || misplacesRealIn design rest

end

theorem realParts_eq_map (design : Design) (parts : List Expr) :
    realParts design parts = parts.map (buildsReal design) := by
  induction parts with
  | nil => simp [realParts]
  | cons first rest ih => simp [realParts, ih]

theorem misplacesRealIn_eq_any (design : Design) (parts : List Expr) :
    misplacesRealIn design parts = parts.any (misplacesReal design) := by
  induction parts with
  | nil => simp [misplacesRealIn]
  | cons first rest ih => simp [misplacesRealIn, ih]

/-! In a later design, what is real and what is misplaced stays so. -/

section Later

variable {before after : Design} (steps : before.Steps after)
include steps

theorem buildsReal_later (expr : Expr) (real : expr.buildsReal before = true) :
    expr.buildsReal after = true := by
  induction expr using Expr.induction with
  | signal node net => exact steps.keepsTypes.real real
  | real node value => rfl
  | binary node op left right ihLeft ihRight =>
    cases op with
    | sum op | arithmetic op =>
      rw [buildsReal, Bool.or_eq_true] at real ⊢
      exact real.imp_right ihLeft
    | _ => cases real
  | concat node parts repeats ih =>
    cases parts with
    | nil => simp [buildsReal, realParts] at real
    | cons first rest =>
      simp only [buildsReal, realParts, List.headD_cons] at real ⊢
      exact ih first List.mem_cons_self real
  | resize node operand ih | partSelect node operand _ ih _ | conditional node _ operand _ _ ih _ =>
    rw [buildsReal] at real ⊢
    exact ih real
  | call node function scope arguments ih =>
    rw [buildsReal] at real ⊢
    obtain ⟨signature, known, domain⟩ := (Option.any_eq_true _ _).mp real
    rw [steps.function_stays known, Option.any_some, domain]
  | _ => cases real

theorem misplacesReal_later (expr : Expr) (misplaced : expr.misplacesReal before = true) :
    expr.misplacesReal after = true := by
  have builds := fun part : Expr => part.buildsReal_later steps
  induction expr using Expr.induction with
  | unary node op operand ih | resize node operand ih =>
    rw [misplacesReal] at misplaced ⊢
    exact ih misplaced
  | binary node op left right ihLeft ihRight =>
    rw [misplacesReal, Bool.or_eq_true] at misplaced ⊢
    exact misplaced.imp ihLeft ihRight
  | concat node parts repeats ih =>
    simp only [misplacesReal, misplacesRealIn_eq_any, realParts_eq_map, Bool.or_eq_true,
      Bool.and_eq_true, List.any_map, List.any_eq_true] at misplaced ⊢
    refine misplaced.imp ?_ (And.imp_right ?_)
    · exact fun ⟨part, member, inPart⟩ => ⟨part, member, ih part member inPart⟩
    · exact fun ⟨part, member, built⟩ => ⟨part, member, builds part built⟩
  | partSelect node vector base ihVector ihBase =>
    simp only [misplacesReal, Bool.or_eq_true] at misplaced ⊢
    exact misplaced.imp (.imp (.imp ihVector ihBase) (builds vector)) (builds base)
  | conditional node condition whenTrue whenFalse ihCondition ihTrue ihFalse =>
    simp only [misplacesReal, Bool.or_eq_true] at misplaced ⊢
    exact misplaced.imp (.imp (.imp ihCondition ihTrue) ihFalse) (builds condition)
  | word node memory index ih =>
    rw [misplacesReal, Bool.or_eq_true] at misplaced ⊢
    exact misplaced.imp ih (builds index)
  | call node function scope arguments ih =>
    simp only [misplacesReal, misplacesRealIn_eq_any, List.any_eq_true] at misplaced ⊢
    obtain ⟨argument, member, inside⟩ := misplaced
    exact ⟨argument, member, ih argument member inside⟩
  | _ => cases misplaced

end Later

end Expr

end NetSynth
