import Mathlib.Data.List.Lex
import Mathlib.Data.List.Sort
import Mathlib.Data.Prod.Lex
import OutboxFormal.Core.Types
import OutboxFormal.Library.Utf8

/-!
# Fan-out snapshots

An event with its targets is checked and brought into a canonical form before it
is encoded, and again after it is decoded. `encoding/json` and the SHA-1 UUIDs
are parameters with their documented behaviour: encoding replaces ill-formed
UTF-8 in strings by U+FFFD and compacts raw messages, and it fails for a time
that RFC 3339 cannot express and for a raw message that is not valid JSON.
-/

namespace OutboxFormal

open Library

structure FanoutEvent where
  id : MessageID
  topic : Bytes
  schemaVersion : Int
  payload : Bytes
  occurredAt : Int
  deriving DecidableEq, Repr

structure FanoutTarget where
  kind : Bytes
  id : Bytes
  snapshot : Bytes
  deriving DecidableEq, Repr

structure FanoutDelivery where
  id : MessageID
  event : FanoutEvent
  target : FanoutTarget
  deriving DecidableEq, Repr

structure FanoutSnapshot where
  event : FanoutEvent
  targets : List FanoutTarget
  availableAt : Int
  deriving DecidableEq, Repr

def fanoutDispatcherJobName : Bytes := bytes "outbox.fanout.dispatch"
def fanoutDispatcherSchemaVersion : Int := 1
def fanoutDeliveryNamePrefix : Bytes := bytes "fanout."

def fanoutDeliveryJobName (kind topic : Bytes) : Bytes :=
  fanoutDeliveryNamePrefix ++ kind ++ bytes "." ++ topic

/-! ## The standard library -/

/-- What decoding makes of an encoded event: strings are valid and the raw
message is compact. -/
def FanoutEvent.image (compact : Bytes → Bytes) (event : FanoutEvent) : FanoutEvent :=
  { event with topic := Utf8.toValid event.topic, payload := compact event.payload }

def FanoutTarget.image (compact : Bytes → Bytes) (target : FanoutTarget) : FanoutTarget :=
  ⟨Utf8.toValid target.kind, Utf8.toValid target.id, compact target.snapshot⟩

def FanoutSnapshot.image (compact : Bytes → Bytes) (snapshot : FanoutSnapshot) :
    FanoutSnapshot :=
  ⟨snapshot.event.image compact, snapshot.targets.map (FanoutTarget.image compact),
    snapshot.availableAt⟩

def FanoutDelivery.image (compact : Bytes → Bytes) (delivery : FanoutDelivery) :
    FanoutDelivery :=
  ⟨delivery.id, delivery.event.image compact, delivery.target.image compact⟩

/-- `encoding/json` and `uuid.NewSHA1`. -/
structure Encodings where
  valid : Bytes → Bool
  compact : Bytes → Bytes
  /-- The year of the time is one of 0 to 9999. -/
  expressible : Int → Bool
  newSHA1 : UUID → Bytes → UUID
  valid_compact : ∀ raw, valid raw = true → valid (compact raw) = true
  invalid_nil : valid [] = false
  snapshots : Codec FanoutSnapshot
    (fun snapshot => valid snapshot.event.payload = true ∧
      expressible snapshot.event.occurredAt = true ∧
      (∀ target ∈ snapshot.targets, valid target.snapshot = true) ∧
      expressible snapshot.availableAt = true)
    (FanoutSnapshot.image compact)
  deliveries : Codec FanoutDelivery
    (fun delivery => valid delivery.event.payload = true ∧
      expressible delivery.event.occurredAt = true ∧ valid delivery.target.snapshot = true)
    (FanoutDelivery.image compact)

/-- An error of `encoding/json`. -/
def errJson : OutboxError := .leaf (.external "encoding/json")

/-- `strings.TrimSpace(value) == ""`: only encodings of white space. -/
def isBlank : Bytes → Bool
  | [] => true
  | 0xC2 :: 0x85 :: rest => isBlank rest
  | 0xC2 :: 0xA0 :: rest => isBlank rest
  | 0xE1 :: 0x9A :: 0x80 :: rest => isBlank rest
  | 0xE2 :: 0x80 :: last :: rest =>
    (Utf8.within 0x80 0x8A last || last == 0xA8 || last == 0xA9 || last == 0xAF) && isBlank rest
  | 0xE2 :: 0x81 :: 0x9F :: rest => isBlank rest
  | 0xE3 :: 0x80 :: 0x80 :: rest => isBlank rest
  | byte :: rest => (Utf8.within 0x09 0x0D byte || byte == 0x20) && isBlank rest

/-! ## Identifiers and keys -/

section Keys

variable (encodings : Encodings)

/-- `uuid.NameSpaceOID`. -/
def nameSpaceOID : UUID := 0x6ba7b8129dad11d180b400c04fd430c8

def fanoutDeliveryID (eventID : MessageID) (kind targetID : Bytes) : MessageID :=
  ⟨encodings.newSHA1
    (encodings.newSHA1 nameSpaceOID (bytes "github.com/assurrussa/outbox/fanout"))
    (eventID.string ++ [0] ++ kind ++ [0] ++ targetID)⟩

def FanoutEvent.deliveryID (event : FanoutEvent) (target : FanoutTarget) : MessageID :=
  fanoutDeliveryID encodings event.id target.kind target.id

end Keys

def fanoutEventDeduplicationKey (eventID : MessageID) : Bytes :=
  bytes "fanout-event:" ++ eventID.string

def fanoutDeliveryDeduplicationKey (deliveryID : MessageID) : Bytes :=
  bytes "fanout-delivery:" ++ deliveryID.string

/-! ## Normalization -/

/-- A character a token may contain. A byte outside ASCII never decodes to one. -/
def tokenByte (allowDot : Bool) (byte : UInt8) : Bool :=
  Utf8.within 0x61 0x7A byte || Utf8.within 0x41 0x5A byte || Utf8.within 0x30 0x39 byte ||
    byte == 0x2D || byte == 0x5F || allowDot && byte == 0x2E

def validFanoutToken (value : Bytes) (allowDot : Bool) : Bool :=
  !value.isEmpty && value.all (tokenByte allowDot)

/-- An error that wraps `ErrInvalidFanout`. -/
def invalidFanout (after : String) : OutboxError := leafError .errInvalidFanout after

/-- `%q` of a name. -/
def quoted (value : Bytes) : String := "\"" ++ printed value ++ "\""

section Normalize

variable (encodings : Encodings)

def normalizeFanoutEvent (event : FanoutEvent) : Except OutboxError FanoutEvent :=
  match event.id.validate with
  | .error error => .error (.both (.leaf .errInvalidFanout) ": event id: " error)
  | .ok () =>
    if !validFanoutToken event.topic true then
      .error (invalidFanout (": invalid topic " ++ quoted event.topic))
    else if 255 < (fanoutDeliveryJobName (bytes "consumer") event.topic).length then
      .error (invalidFanout ": topic is too long")
    else if event.schemaVersion ≤ 0 then
      .error (invalidFanout ": schema version must be positive")
    else if event.occurredAt = 0 then .error (invalidFanout ": occurredAt is required")
    else if !encodings.valid event.payload then
      .error (invalidFanout ": event payload must be valid JSON")
    else .ok event

/-- The snapshot of a target, `{}` when it has none. -/
def FanoutTarget.snapshotOrEmpty (target : FanoutTarget) : Bytes :=
  if target.snapshot.isEmpty then [0x7B, 0x7D] else target.snapshot

def normalizeFanoutTarget (target : FanoutTarget) : Except OutboxError FanoutTarget :=
  if !validFanoutToken target.kind false then
    .error (invalidFanout (": invalid target kind " ++ quoted target.kind))
  else if isBlank target.id ∨ 512 < target.id.length then
    .error (invalidFanout ": invalid target id")
  else if 255 < (fanoutDeliveryJobName target.kind (bytes "topic")).length then
    .error (invalidFanout ": target kind is too long")
  else if !encodings.valid target.snapshotOrEmpty then
    .error (invalidFanout ": target snapshot must be valid JSON")
  else .ok { target with snapshot := target.snapshotOrEmpty }

def FanoutTarget.key (target : FanoutTarget) : Bytes := target.kind ++ [0] ++ target.id

def normalizeFanoutTargets (topic : Bytes) :
    List Bytes → List FanoutTarget → Except OutboxError (List FanoutTarget)
  | _, [] => .ok []
  | seen, item :: rest =>
    match normalizeFanoutTarget encodings item with
    | .error error => .error error
    | .ok target =>
      if 255 < (fanoutDeliveryJobName target.kind topic).length then
        .error (invalidFanout (": delivery capability name is too long for target " ++
          quoted target.kind ++ "/" ++ quoted target.id))
      else if target.key ∈ seen then
        .error (invalidFanout (": duplicate target " ++ quoted target.kind ++ "/" ++
          quoted target.id))
      else
        match normalizeFanoutTargets topic (target.key :: seen) rest with
        | .error error => .error error
        | .ok targets => .ok (target :: targets)

/-- Go compares strings byte by byte. -/
def bytesLess (first second : Bytes) : Bool :=
  decide (first.map UInt8.toNat < second.map UInt8.toNat)

/-- The comparison of `sort.Slice`. -/
def targetLess (first second : FanoutTarget) : Bool :=
  if first.kind = second.kind then bytesLess first.id second.id
  else bytesLess first.kind second.kind

/-- `sort.Slice`. It is not stable, but no two targets compare equal here. -/
def sortTargets (targets : List FanoutTarget) : List FanoutTarget :=
  targets.insertionSort fun first second => targetLess second first = false

def normalizeFanoutSnapshot (snapshot : FanoutSnapshot) : Except OutboxError FanoutSnapshot :=
  match normalizeFanoutEvent encodings snapshot.event with
  | .error error => .error error
  | .ok event =>
    match normalizeFanoutTargets encodings event.topic [] snapshot.targets with
    | .error error => .error error
    | .ok targets => .ok ⟨event, sortTargets targets, snapshot.availableAt⟩

/-- `DecodeFanoutDelivery`. -/
def decodeFanoutDelivery (payload : Bytes) : Except OutboxError FanoutDelivery :=
  match encodings.deliveries.decode payload with
  | none => .error (.both (.leaf .errInvalidFanout) ": decode delivery: " errJson)
  | some delivery =>
    match normalizeFanoutEvent encodings delivery.event with
    | .error error => .error error
    | .ok event =>
      match normalizeFanoutTarget encodings delivery.target with
      | .error error => .error error
      | .ok target =>
        if delivery.id ≠ fanoutDeliveryID encodings event.id target.kind target.id then
          .error (invalidFanout ": delivery id does not match event and target")
        else .ok { delivery with event := event, target := target }

end Normalize

end OutboxFormal
