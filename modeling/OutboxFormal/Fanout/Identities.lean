import OutboxFormal.Fanout.Acceptance
import OutboxFormal.Library.Delimited

/-!
# Fan-out identities

Every identity of a fan-out is a concatenation of user-controlled strings. A kind
contains neither the dot of a capability name nor the zero byte of a delivery
name or target key, and the text of an identifier has a fixed length; so each
concatenation can be taken apart again.
-/

namespace OutboxFormal

open Library

/-! ## Tokens -/

theorem not_mem_token {value : Bytes} {allowDot : Bool} {byte : UInt8}
    (token : validFanoutToken value allowDot = true) (excluded : tokenByte allowDot byte = false) :
    byte ∉ value := by
  intro member
  have allowed := List.all_eq_true.mp (Bool.and_eq_true_iff.mp token).2 byte member
  rw [excluded] at allowed
  cases allowed

theorem dot_not_mem_kind {kind : Bytes} (token : validFanoutToken kind false = true) :
    0x2E ∉ kind :=
  not_mem_token token (by decide)

theorem zero_not_mem_kind {kind : Bytes} (token : validFanoutToken kind false = true) :
    0 ∉ kind :=
  not_mem_token token (by decide)

/-! ## Delivery identifiers -/

theorem length_uuidString (uuid : UUID) : (uuidString uuid).length = 36 := by
  have digits : ((uuidNibbles uuid).map hexDigit).length = 32 := by
    rw [List.length_map, uuidNibbles, List.length_map, List.length_range]
  have dash : (bytes "-").length = 1 := by decide
  simp only [uuidString, List.length_append, List.length_take, List.length_drop, digits, dash]
  decide

/-- The string `FanoutDeliveryID` hashes. -/
def fanoutDeliveryName (eventID : MessageID) (kind targetID : Bytes) : Bytes :=
  eventID.string ++ [0] ++ kind ++ [0] ++ targetID

theorem fanoutDeliveryID_eq (encodings : Encodings) (eventID : MessageID) (kind targetID : Bytes) :
    fanoutDeliveryID encodings eventID kind targetID = ⟨encodings.newSHA1
      (encodings.newSHA1 nameSpaceOID (bytes "github.com/assurrussa/outbox/fanout"))
      (fanoutDeliveryName eventID kind targetID)⟩ :=
  rfl

theorem kind_id_inj {kind kind' id id' : Bytes} (token : validFanoutToken kind false = true)
    (token' : validFanoutToken kind' false = true)
    (same : kind ++ [0] ++ id = kind' ++ [0] ++ id') :
    kind = kind' ∧ id = id' := by
  rw [List.append_assoc, List.append_assoc] at same
  exact delimited_inj (zero_not_mem_kind token) (zero_not_mem_kind token') same

theorem fanoutDeliveryName_inj {eventID eventID' : MessageID} {kind kind' id id' : Bytes}
    (token : validFanoutToken kind false = true) (token' : validFanoutToken kind' false = true)
    (same : fanoutDeliveryName eventID kind id = fanoutDeliveryName eventID' kind' id') :
    eventID = eventID' ∧ kind = kind' ∧ id = id' := by
  simp only [fanoutDeliveryName, List.append_assoc] at same
  have lengths : eventID.string.length = eventID'.string.length :=
    (length_uuidString _).trans (length_uuidString _).symm
  obtain ⟨events, rest⟩ := List.append_inj same lengths
  refine ⟨?_, kind_id_inj token token' ?_⟩
  · cases eventID
    cases eventID'
    exact congrArg MessageID.mk (uuidString_injective events)
  · rw [List.append_assoc, List.append_assoc]
    exact (List.cons.inj rest).2

/-! ## Capability names -/

theorem fanoutDeliveryJobName_inj {kind kind' topic topic' : Bytes}
    (token : validFanoutToken kind false = true) (token' : validFanoutToken kind' false = true)
    (same : fanoutDeliveryJobName kind topic = fanoutDeliveryJobName kind' topic') :
    kind = kind' ∧ topic = topic' := by
  simp only [fanoutDeliveryJobName, List.append_assoc] at same
  have behind := List.append_cancel_left same
  exact delimited_inj (dot_not_mem_kind token) (dot_not_mem_kind token') behind

/-- The names of deliveries and of the dispatcher differ in their first letter. -/
theorem fanoutDeliveryJobName_ne (kind topic : Bytes) :
    fanoutDeliveryJobName kind topic ≠ fanoutDispatcherJobName := by
  intro same
  have letter := congrArg List.head? same
  have first : (fanoutDeliveryJobName kind topic).head? = some 0x66 := rfl
  rw [first] at letter
  exact absurd letter (by decide)

/-! ## No collision -/

/-- For accepted targets and any topics no two identities of one sort are written
alike: the name a delivery identifier is hashed from, the capability name, and
the key of a target each determine what they are made of, and the names and keys
of different sorts differ. -/
theorem fanout_identities_unambiguous (encodings : Encodings)
    {target target' acceptedTarget acceptedTarget' : FanoutTarget}
    (first : normalizeFanoutTarget encodings target = .ok acceptedTarget)
    (second : normalizeFanoutTarget encodings target' = .ok acceptedTarget') :
    (∀ eventID eventID' : MessageID,
      fanoutDeliveryName eventID acceptedTarget.kind acceptedTarget.id =
        fanoutDeliveryName eventID' acceptedTarget'.kind acceptedTarget'.id →
      eventID = eventID' ∧ acceptedTarget.kind = acceptedTarget'.kind ∧
        acceptedTarget.id = acceptedTarget'.id) ∧
    (∀ eventID : MessageID, fanoutDeliveryID encodings eventID acceptedTarget.kind
        acceptedTarget.id = ⟨encodings.newSHA1
          (encodings.newSHA1 nameSpaceOID (bytes "github.com/assurrussa/outbox/fanout"))
          (fanoutDeliveryName eventID acceptedTarget.kind acceptedTarget.id)⟩) ∧
    (∀ topic topic' : Bytes, fanoutDeliveryJobName acceptedTarget.kind topic =
        fanoutDeliveryJobName acceptedTarget'.kind topic' →
      acceptedTarget.kind = acceptedTarget'.kind ∧ topic = topic') ∧
    (∀ topic : Bytes,
      fanoutDeliveryJobName acceptedTarget.kind topic ≠ fanoutDispatcherJobName) ∧
    (acceptedTarget.key = acceptedTarget'.key →
      acceptedTarget.kind = acceptedTarget'.kind ∧ acceptedTarget.id = acceptedTarget'.id) ∧
    ∀ eventID deliveryID : MessageID,
      fanoutEventDeduplicationKey eventID ≠ fanoutDeliveryDeduplicationKey deliveryID := by
  obtain ⟨rfl, checked⟩ := normalizeFanoutTarget_eq_ok_iff.mp first
  obtain ⟨rfl, checked'⟩ := normalizeFanoutTarget_eq_ok_iff.mp second
  have token : validFanoutToken target.normalized.kind false = true := checked.kind
  have token' : validFanoutToken target'.normalized.kind false = true := checked'.kind
  refine ⟨?_, ?_, ?_, ?_, ?_, ?_⟩
  · exact fun _ _ same => fanoutDeliveryName_inj token token' same
  · exact fun eventID => fanoutDeliveryID_eq encodings eventID _ _
  · exact fun _ _ same => fanoutDeliveryJobName_inj token token' same
  · exact fun topic => fanoutDeliveryJobName_ne _ topic
  · exact fun same => kind_id_inj token token' same
  · exact fanoutEventDeduplicationKey_ne

/-- A zero byte in an identifier does not move the border to its kind. -/
theorem fanout_identities_zero_byte :
    normalizeFanoutTarget Sample.encodings ⟨bytes "a", [0x62, 0, 0x63], []⟩ =
        .ok ⟨bytes "a", [0x62, 0, 0x63], [0x7B, 0x7D]⟩ ∧
      normalizeFanoutTarget Sample.encodings ⟨bytes "ab", [0x63], []⟩ =
        .ok ⟨bytes "ab", [0x63], [0x7B, 0x7D]⟩ ∧
      ∀ eventID eventID' : MessageID, fanoutDeliveryName eventID (bytes "a") [0x62, 0, 0x63] ≠
        fanoutDeliveryName eventID' (bytes "ab") [0x63] := by
  have first : normalizeFanoutTarget Sample.encodings ⟨bytes "a", [0x62, 0, 0x63], []⟩ =
      .ok ⟨bytes "a", [0x62, 0, 0x63], [0x7B, 0x7D]⟩ := by decide
  have second : normalizeFanoutTarget Sample.encodings ⟨bytes "ab", [0x63], []⟩ =
      .ok ⟨bytes "ab", [0x63], [0x7B, 0x7D]⟩ := by decide
  refine ⟨first, second, fun eventID eventID' same => ?_⟩
  have kinds := ((fanout_identities_unambiguous Sample.encodings first second).1 _ _ same).2.1
  exact absurd kinds (by decide)

end OutboxFormal
