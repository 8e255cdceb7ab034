import Mathlib.Data.List.Nodup
import NetSynth.Proofs.Contract

/-! The tables of the device catalogue beside one another: the pins of a kind, the direction and the
width of each, and the pins that share a domain. Nothing that the contract speaks of is missing from
the list of pins, and nothing on the list escapes the contract. -/
namespace NetSynth

namespace DeviceKind

variable {family : Nat → PinName}

theorem nodup_family (injective : Function.Injective family) (count : Nat) :
    ((List.range count).map family).Nodup :=
  List.nodup_range.map injective

theorem filter_family (read : ∀ index, (family index).direction = .input) (count : Nat) :
    ((List.range count).map family).filter (·.direction == .output) = [] := by
  simp [read]

theorem pins_nodup (kind : DeviceKind) : kind.pins.Nodup := by
  cases kind with
  | logic gate width inputs | concat width inputs =>
    have numbered := nodup_family (fun _ _ => PinName.input.inj) inputs
    simp [pins, numbered]
  | mux width size selectWidth =>
    have numbered := nodup_family (fun _ _ => PinName.data.inj) size
    simp [pins, numbered, List.nodup_append]
  | call function resultWidth argumentWidths =>
    have numbered := nodup_family (fun _ _ => PinName.argument.inj) argumentWidths.length
    simp [pins, numbered]
  | partSelect width vectorWidth base => cases base <;> simp [pins]
  | _ => simp [pins]

/-- The pin that a device of the kind drives. -/
def driven : DeviceKind → PinName
  | .compare relation .. => .related relation
  | .partSelect .. => .part
  | .logic .. | .reduce .. | .concat .. | .signExtend .. | .constant _ | .literal _ => .output
  | _ => .result

theorem filter_output_pins (kind : DeviceKind) :
    kind.pins.filter (·.direction == .output) = [kind.driven] := by
  cases kind with
  | logic gate width inputs | concat width inputs =>
    exact congrArg (PinName.output :: ·) (filter_family (fun _ => rfl) inputs)
  | mux width size selectWidth =>
    have read : ∀ index, (PinName.data index).direction = .input := fun _ => rfl
    rw [pins, List.filter_append, List.filter_cons_of_neg (by decide), filter_family read]
    rfl
  | call function resultWidth argumentWidths =>
    exact congrArg (PinName.result :: ·) (filter_family (fun _ => rfl) argumentWidths.length)
  | partSelect width vectorWidth base => cases base <;> rfl
  | _ => rfl

/-- The inputs of a concatenation are asked for a width together and not one by one. -/
def IsSummed (kind : DeviceKind) (pin : PinName) : Prop :=
  (∃ width inputs, kind = .concat width inputs) ∧ pin.isInput = true

/-- A width is asked for at the pins of the kind and at no other, but for the summed ones. -/
theorem isSome_pinWidth?_iff (kind : DeviceKind) (pin : PinName) :
    (kind.pinWidth? pin).isSome = true ↔ pin ∈ kind.pins ∧ ¬kind.IsSummed pin := by
  cases kind with
  | concat width inputs => cases pin <;> simp [pins, pinWidth?, IsSummed, PinName.isInput]
  | shift | reduce | signExtend =>
    -- Of a numbered family these kinds have the first pin alone.
    cases pin with
    | data index | input index => cases index <;> simp [pins, pinWidth?, IsSummed]
    | _ => simp [pins, pinWidth?, IsSummed]
  | partSelect width vectorWidth base =>
    cases base <;> cases pin <;> simp [pins, pinWidth?, IsSummed]
  | _ => cases pin <;> simp [pins, pinWidth?, IsSummed]

theorem domainPins_sublist (kind : DeviceKind) : kind.domainPins.Sublist kind.pins := by
  cases kind with
  | addSub => exact List.Sublist.refl _
  | arithmetic | compare => exact List.sublist_append_left [PinName.dataA, PinName.dataB] [_]
  | mux => exact List.sublist_cons_self _ _
  | _ => exact List.nil_sublist _

/-- The tables of a kind agree: no pin is listed twice, one pin is driven, widths are asked for at
the pins of the kind, but for the summed ones, and the domain pins are pins of the kind. -/
structure TablesAgree (kind : DeviceKind) : Prop where
  pins_nodup : kind.pins.Nodup
  one_output : ∃ driven, kind.pins.filter (·.direction == .output) = [driven]
  widths : ∀ pin, (kind.pinWidth? pin).isSome = true ↔ pin ∈ kind.pins ∧ ¬kind.IsSummed pin
  domains_nodup : kind.domainPins.Nodup
  domains_subset : kind.domainPins ⊆ kind.pins

end DeviceKind

theorem pin_tables_agree (kind : DeviceKind) : kind.TablesAgree where
  pins_nodup := kind.pins_nodup
  one_output := ⟨kind.driven, kind.filter_output_pins⟩
  widths := kind.isSome_pinWidth?_iff
  domains_nodup := kind.pins_nodup.sublist kind.domainPins_sublist
  domains_subset := kind.domainPins_sublist.subset

namespace Design.Keeps

variable {design : Design} {kind : DeviceKind} {connections : List Connection}

/-- Connections that keep a contract drive one reference. -/
theorem exists_driven (kept : design.Keeps kind connections) : ∃ connection,
    connections.filter (·.pin.direction == .output) = [connection] ∧
      connection.pin = kind.driven := by
  have outputs := kind.filter_output_pins
  rw [← kept.pins, List.filter_map, List.map_eq_singleton_iff] at outputs
  exact outputs

/-- Every connection that keeps a contract shows a width that is asked for, but for summed ones. -/
theorem width_asked (kept : design.Keeps kind connections) {connection : Connection}
    (listed : connection ∈ connections) (single : ¬kind.IsSummed connection.pin) :
    ∃ width, kind.pinWidth? connection.pin = some width ∧
      design.refWidth connection.ref = .ok width := by
  have isPin : connection.pin ∈ kind.pins := kept.pins ▸ List.mem_map_of_mem listed
  have asked := (kind.isSome_pinWidth?_iff _).mpr ⟨isPin, single⟩
  obtain ⟨width, same⟩ := Option.isSome_iff_exists.mp asked
  exact ⟨width, same, kept.widths connection listed width same⟩

/-- Every domain pin is connected, so that its domain is among those that were compared. -/
theorem domain_connected (kept : design.Keeps kind connections) {pin : PinName}
    (listed : pin ∈ kind.domainPins) : ∃ connection ∈ connections, connection.pin = pin := by
  have isPin := kind.domainPins_sublist.subset listed
  rwa [← kept.pins, List.mem_map] at isPin

end Design.Keeps

end NetSynth
