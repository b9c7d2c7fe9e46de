import OfdmBurst.Text.Quoted

/-!
# Errors of the framing blocks

What a block, a carrier map or a constellation refuses, as causes. Each cause has one text,
`FramingError.message`.
-/

namespace OfdmBurst

/-- A parameter that no block can be built with, or no frame can be sent with. -/
inductive Parameter where
  | constellationSize (points : Nat)
  | whitenerOffset (offset : Nat)
  | noDataCarriers
  | narrowDefaultMap (occupied : Nat)
  | zeroFft
  | noPreamble
  | bandwidth (value : String)
  | noTimeout
  | noPreambleSymbols
  | mapTooWide (occupied fft : Nat)
  | incompleteConstellation (bits : Nat)
  | mapWidth (map block : Nat)
  | gain (name value : String)
deriving DecidableEq, Repr

/-- The text of a refused parameter. -/
def Parameter.message : Parameter → String
  | .constellationSize points => s!"constellation with {points} points"
  | .whitenerOffset offset => s!"whitener offset {offset} exceeds 4 bits"
  | .noDataCarriers => "no data subcarriers"
  | .narrowDefaultMap occupied =>
    s!"default subcarrier map needs at least 16 occupied carriers, got {occupied}"
  | .zeroFft => "fft length must be positive"
  | .noPreamble => "empty preamble"
  | .bandwidth value => s!"bandwidth {value} must be positive"
  | .noTimeout => "timeout must be positive"
  | .noPreambleSymbols => "preamble must have at least one symbol"
  | .mapTooWide occupied fft =>
    s!"{occupied} occupied carriers do not fit into fft length {fft}"
  | .incompleteConstellation bits => s!"constellation does not cover every {bits}-bit pattern"
  | .mapWidth map block => s!"subcarrier map for {map} carriers, sink for {block}"
  | .gain name value => s!"{name} {value}"

/-- Why something is refused. -/
inductive FramingError where
  | preambleLength (index length expected : Nat)
  | constellationMismatch (points values : Nat)
  | emptyConstellation
  | constellationValue (value bits : Nat)
  | carrierOverflow (allocated occupied : Nat)
  | carrierIndex (index occupied : Nat)
  | invalidMask (mask : String)
  | prefixSize (input output : Nat)
  | parameter (cause : Parameter)
  | timeTagOffset (index : Nat)
  | payloadOverrun (length most : Nat)
deriving DecidableEq, Repr

/-- The text of a framing error. -/
def FramingError.message : FramingError → String
  | .preambleLength index length expected =>
    s!"preamble symbol {index} has {length} samples, expected {expected}"
  | .constellationMismatch points values =>
    s!"constellation has {points} points but {values} values"
  | .emptyConstellation => "constellation is empty"
  | .constellationValue value bits =>
    s!"constellation value {value} does not fit into {bits} bits"
  | .carrierOverflow allocated occupied =>
    s!"{allocated} subcarriers allocated, but only {occupied} occupied carriers"
  | .carrierIndex index occupied =>
    s!"subcarrier index {index} outside of {occupied} occupied carriers"
  | .invalidMask mask => "invalid subcarrier mask " ++ Text.quoted mask
  | .prefixSize input output =>
    s!"cyclic prefixer output size {output} smaller than input size {input}"
  | .parameter cause => "invalid parameter: " ++ cause.message
  | .timeTagOffset index => s!"rx time tag at sample {index}, expected sample 0"
  | .payloadOverrun length most => s!"payload of {length} bytes exceeds maximum of {most}"

end OfdmBurst
