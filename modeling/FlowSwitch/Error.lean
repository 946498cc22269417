/-!
# Errors

Why a control operation or a packet was refused. Each class of protocol errors
has its own type; the number of a class and the code within it are the places
in the lists below, from zero. The remaining causes never leave the switch and
have no number.
-/

namespace FlowSwitch

inductive HelloFailed
  | incompatible
  | eperm
  deriving DecidableEq, Repr

def HelloFailed.text : HelloFailed → String
  | incompatible => "incompatible"
  | eperm => "permissions error"

inductive BadRequest
  | badVersion
  | badType
  | badMultipart
  | badExperimenter
  | badExpType
  | eperm
  | badLen
  | bufferEmpty
  | bufferUnknown
  | badTableId
  | isSlave
  | badPort
  | badPacket
  | multipartBufferOverflow
  deriving DecidableEq, Repr

def BadRequest.text : BadRequest → String
  | badVersion => "bad version"
  | badType => "bad type"
  | badMultipart => "bad multipart type"
  | badExperimenter => "bad experimenter"
  | badExpType => "bad experimenter type"
  | eperm => "permissions error"
  | badLen => "wrong length"
  | bufferEmpty => "buffer empty"
  | bufferUnknown => "buffer unknown"
  | badTableId => "bad table id"
  | isSlave => "denied because controller is slave"
  | badPort => "invalid port"
  | badPacket => "invalid packet in packet-out"
  | multipartBufferOverflow => "multipart buffer overflow"

inductive BadAction
  | badType
  | badLen
  | badExperimenter
  | badExpType
  | badOutPort
  | badArgument
  | eperm
  | tooMany
  | badQueue
  | badOutGroup
  | matchInconsistent
  | unsupportedOrder
  | badTag
  | badSetType
  | badSetLen
  | badSetArgument
  deriving DecidableEq, Repr

def BadAction.text : BadAction → String
  | badType => "unknown action type"
  | badLen => "length problem"
  | badExperimenter => "unknown experimenter"
  | badExpType => "unknown experimenter type"
  | badOutPort => "problem validating output port"
  | badArgument => "bad action argument"
  | eperm => "permissions error"
  | tooMany => "can't handle this many actions"
  | badQueue => "problem validating output queue"
  | badOutGroup => "invalid group id in output action"
  | matchInconsistent => "action inconsistent with match"
  | unsupportedOrder => "unsupported action order"
  | badTag => "unsupported tag"
  | badSetType => "unsupported set-field type"
  | badSetLen => "length problem in set-field"
  | badSetArgument => "bad argument in set-field"

inductive BadInstruction
  | unknownInst
  | unsupInst
  | badTableId
  | unsupMetadata
  | unsupMetadataMask
  | badExperimenter
  | badExpType
  | badLen
  | eperm
  deriving DecidableEq, Repr

def BadInstruction.text : BadInstruction → String
  | unknownInst => "unknown instruction"
  | unsupInst => "unsupported instruction"
  | badTableId => "invalid table id"
  | unsupMetadata => "unsupported metadata value"
  | unsupMetadataMask => "unsupported metadata mask"
  | badExperimenter => "unknown experimenter"
  | badExpType => "unknown experimenter type"
  | badLen => "length problem"
  | eperm => "permissions error"

inductive BadMatch
  | badType
  | badLen
  | badTag
  | badDlAddrMask
  | badNwAddrMask
  | badWildcards
  | badField
  | badValue
  | badMask
  | badPrereq
  | dupField
  | eperm
  deriving DecidableEq, Repr

def BadMatch.text : BadMatch → String
  | badType => "unsupported match type"
  | badLen => "length problem"
  | badTag => "unsupported tag"
  | badDlAddrMask => "unsupported datalink address mask"
  | badNwAddrMask => "unsupported network address mask"
  | badWildcards => "unsupported wildcard combination"
  | badField => "unsupported field type"
  | badValue => "unsupported value in a match field"
  | badMask => "unsupported mask"
  | badPrereq => "prerequisite not met"
  | dupField => "field type repeated"
  | eperm => "permissions error"

inductive FlowModFailed
  | unknown
  | tableFull
  | badTableId
  | overlap
  | eperm
  | badTimeout
  | badCommand
  | badFlags
  deriving DecidableEq, Repr

def FlowModFailed.text : FlowModFailed → String
  | unknown => "unspecified error"
  | tableFull => "table full"
  | badTableId => "bad table id"
  | overlap => "overlapping entry"
  | eperm => "permissions error"
  | badTimeout => "unsupported timeout"
  | badCommand => "unsupported command"
  | badFlags => "unsupported flags"

inductive GroupModFailed
  | groupExists
  | invalidGroup
  | weightUnsupported
  | outOfGroups
  | outOfBuckets
  | chainingUnsupported
  | watchUnsupported
  | loop
  | unknownGroup
  | chainedGroup
  | badType
  | badCommand
  | badBucket
  | badWatch
  | eperm
  deriving DecidableEq, Repr

def GroupModFailed.text : GroupModFailed → String
  | groupExists => "group exists"
  | invalidGroup => "invalid group"
  | weightUnsupported => "weight unsupported"
  | outOfGroups => "out of groups"
  | outOfBuckets => "out of buckets"
  | chainingUnsupported => "chaining unsupported"
  | watchUnsupported => "watch unsupported"
  | loop => "loop"
  | unknownGroup => "unknown group"
  | chainedGroup => "chained group"
  | badType => "bad type"
  | badCommand => "bad command"
  | badBucket => "bad bucket"
  | badWatch => "bad watch"
  | eperm => "permissions error"

inductive PortModFailed
  | badPort
  | badHwAddr
  | badConfig
  | badAdvertise
  | eperm
  deriving DecidableEq, Repr

def PortModFailed.text : PortModFailed → String
  | badPort => "bad port"
  | badHwAddr => "bad hardware address"
  | badConfig => "bad config"
  | badAdvertise => "bad advertise"
  | eperm => "permissions error"

inductive TableModFailed
  | badTable
  | badConfig
  | eperm
  deriving DecidableEq, Repr

def TableModFailed.text : TableModFailed → String
  | badTable => "bad table"
  | badConfig => "bad config"
  | eperm => "permissions error"

inductive QueueOpFailed
  | badPort
  | badQueue
  | eperm
  deriving DecidableEq, Repr

def QueueOpFailed.text : QueueOpFailed → String
  | badPort => "bad port"
  | badQueue => "bad queue"
  | eperm => "permissions error"

inductive SwitchConfigFailed
  | badFlags
  | badLen
  | eperm
  deriving DecidableEq, Repr

def SwitchConfigFailed.text : SwitchConfigFailed → String
  | badFlags => "bad flags"
  | badLen => "bad length"
  | eperm => "permissions error"

inductive RoleRequestFailed
  | stale
  | unsup
  | badRole
  deriving DecidableEq, Repr

def RoleRequestFailed.text : RoleRequestFailed → String
  | stale => "stale message"
  | unsup => "unsupported role change"
  | badRole => "invalid role"

inductive MeterModFailed
  | unknown
  | meterExists
  | invalidMeter
  | unknownMeter
  | badCommand
  | badFlags
  | badRate
  | badBurst
  | badBand
  | badBandValue
  | outOfMeters
  | outOfBands
  deriving DecidableEq, Repr

def MeterModFailed.text : MeterModFailed → String
  | unknown => "unspecified error"
  | meterExists => "meter exists"
  | invalidMeter => "invalid meter"
  | unknownMeter => "unknown meter"
  | badCommand => "bad command"
  | badFlags => "bad flags"
  | badRate => "bad rate"
  | badBurst => "bad burst size"
  | badBand => "bad band"
  | badBandValue => "bad band value"
  | outOfMeters => "out of meters"
  | outOfBands => "out of bands"

inductive TableFeaturesFailed
  | badTable
  | badMetadata
  | badType
  | badLen
  | badArgument
  | eperm
  deriving DecidableEq, Repr

def TableFeaturesFailed.text : TableFeaturesFailed → String
  | badTable => "bad table"
  | badMetadata => "bad metadata"
  | badType => "bad type"
  | badLen => "bad length"
  | badArgument => "bad argument"
  | eperm => "permissions error"

inductive SwitchError
  | helloFailed (cause : HelloFailed)
  | badRequest (cause : BadRequest)
  | badAction (cause : BadAction)
  | badInstruction (cause : BadInstruction)
  | badMatch (cause : BadMatch)
  | flowModFailed (cause : FlowModFailed)
  | groupModFailed (cause : GroupModFailed)
  | portModFailed (cause : PortModFailed)
  | tableModFailed (cause : TableModFailed)
  | queueOpFailed (cause : QueueOpFailed)
  | switchConfigFailed (cause : SwitchConfigFailed)
  | roleRequestFailed (cause : RoleRequestFailed)
  | meterModFailed (cause : MeterModFailed)
  | tableFeaturesFailed (cause : TableFeaturesFailed)
  | failed
  | lock
  | unlock
  | notFound
  | dropPacket
  | invalidParameter
  | notSupported
  deriving DecidableEq, Repr

namespace SwitchError

def message : SwitchError → String
  | helloFailed cause => "hello failed: " ++ cause.text
  | badRequest cause => "bad request: " ++ cause.text
  | badAction cause => "bad action: " ++ cause.text
  | badInstruction cause => "bad instruction: " ++ cause.text
  | badMatch cause => "bad match: " ++ cause.text
  | flowModFailed cause => "flow mod failed: " ++ cause.text
  | groupModFailed cause => "group mod failed: " ++ cause.text
  | portModFailed cause => "port mod failed: " ++ cause.text
  | tableModFailed cause => "table mod failed: " ++ cause.text
  | queueOpFailed cause => "queue op failed: " ++ cause.text
  | switchConfigFailed cause => "switch config failed: " ++ cause.text
  | roleRequestFailed cause => "role request failed: " ++ cause.text
  | meterModFailed cause => "meter mod failed: " ++ cause.text
  | tableFeaturesFailed cause => "table features failed: " ++ cause.text
  | failed => "operation failed"
  | lock => "failed to acquire the pipeline lock"
  | unlock => "failed to release the pipeline lock"
  | notFound => "not found"
  | dropPacket => "packet dropped"
  | invalidParameter => "invalid parameter"
  | notSupported => "not supported"

/-- The protocol's `(type, code)` pair; absent for causes that never leave the switch. -/
def number : SwitchError → Option (Nat × Nat)
  | helloFailed cause => some (0, cause.ctorIdx)
  | badRequest cause => some (1, cause.ctorIdx)
  | badAction cause => some (2, cause.ctorIdx)
  | badInstruction cause => some (3, cause.ctorIdx)
  | badMatch cause => some (4, cause.ctorIdx)
  | flowModFailed cause => some (5, cause.ctorIdx)
  | groupModFailed cause => some (6, cause.ctorIdx)
  | portModFailed cause => some (7, cause.ctorIdx)
  | tableModFailed cause => some (8, cause.ctorIdx)
  | queueOpFailed cause => some (9, cause.ctorIdx)
  | switchConfigFailed cause => some (10, cause.ctorIdx)
  | roleRequestFailed cause => some (11, cause.ctorIdx)
  | meterModFailed cause => some (12, cause.ctorIdx)
  | tableFeaturesFailed cause => some (13, cause.ctorIdx)
  | _ => none

/-- The cause with a `(type, code)` pair, if there is one. -/
def ofNumber? (type code : Nat) : Option SwitchError :=
  let candidate : Option SwitchError :=
    match type with
    | 0 => some (.helloFailed (.ofNat code))
    | 1 => some (.badRequest (.ofNat code))
    | 2 => some (.badAction (.ofNat code))
    | 3 => some (.badInstruction (.ofNat code))
    | 4 => some (.badMatch (.ofNat code))
    | 5 => some (.flowModFailed (.ofNat code))
    | 6 => some (.groupModFailed (.ofNat code))
    | 7 => some (.portModFailed (.ofNat code))
    | 8 => some (.tableModFailed (.ofNat code))
    | 9 => some (.queueOpFailed (.ofNat code))
    | 10 => some (.switchConfigFailed (.ofNat code))
    | 11 => some (.roleRequestFailed (.ofNat code))
    | 12 => some (.meterModFailed (.ofNat code))
    | 13 => some (.tableFeaturesFailed (.ofNat code))
    | _ => none
  candidate.filter fun e => e.number == some (type, code)

end SwitchError

end FlowSwitch
