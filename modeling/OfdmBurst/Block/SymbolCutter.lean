import OfdmBurst.Block.Basic

/-!
# Cutting symbols out of samples

A detector marks the last sample of the last preamble symbol of every burst with a non-zero trigger.
The cutter emits the symbol that ends there, flagged, and from then on a symbol every symbol length,
leaving out the cyclic prefixes, until the next trigger comes or the countdown of the frame is over.

It looks at a window of a symbol length, an fft length and one more sample. Triggers are looked for
behind the first fft length of samples, which any symbol that ends at a trigger needs in front of
the trigger. Every look uses up at least one sample, so the work ends.

The flagged symbol is tagged with the time at which its burst began. That is computed from the last
receive time seen on the samples, the anchor, and the number of samples between. A carrier offset
seen on the samples is handed on with the next burst.

A receive time on the first sample of the stream is always taken as the anchor. What happens to one
on a later sample is a matter of policy.

## Main definitions

* `CutterOptions`, `CutterOptions.build`: what a cutter is built from
* `SymbolCutter`, `SymbolCutter.step`: the state, and one look at the window
* `SymbolCutter.drain`, `SymbolCutter.work`: looking on while there is a window and room
-/

namespace OfdmBurst

/-- What becomes of a receive time that is not on the first sample of the stream. -/
inductive TimePolicy where
  /-- It is the new anchor. -/
  | rebase
  /-- It is left aside. -/
  | drop
  /-- The block fails. -/
  | strict
deriving DecidableEq, Repr

/-- What a cutter is built from. -/
structure CutterOptions (τ : Type) where
  /-- Samples of a symbol that is put out. -/
  fft : Nat
  /-- Samples from one symbol to the next. -/
  symbol : Nat
  /-- Samples in a second. -/
  bandwidth : τ
  /-- Symbols that may follow a trigger. -/
  timeout : Nat := 100
  /-- Symbols of the preamble that a trigger ends. -/
  preamble : Nat := 1
  /-- What is done with a receive time behind the first sample. -/
  policy : TimePolicy := .rebase

/-- Whether a cutter is inside a frame, and for how many more symbols. -/
inductive SymbolCutter.Phase where
  | search
  | frame (remaining : Nat)
deriving DecidableEq, Repr

/-- A block that cuts symbols out of a stream of samples. -/
structure SymbolCutter (α τ : Type) where
  /-- Where samples arrive, with receive times and carrier offsets. -/
  samples : Inlet α τ
  /-- Where triggers arrive, one for each sample. -/
  triggers : Inlet UInt8 τ
  /-- Where symbols are put out. -/
  symbols : Outlet α τ
  /-- Where their flags are put out, tagged at the beginning of a burst. -/
  flags : Outlet UInt8 τ
  /-- What the cutter is built from. -/
  options : CutterOptions τ
  /-- Whether it searches, and how long the frame may go on if not. -/
  phase : SymbolCutter.Phase := .search
  /-- The sample from which times are counted, and its time. -/
  anchor : Option (Nat × Timestamp τ) := none
  /-- The carrier offset for the next burst. -/
  offset : Option Float := none
  /-- The tags of samples in front of this one were noted. -/
  seen : Nat := 0
  /-- A symbol has a sample. -/
  fft_pos : 0 < options.fft
  /-- Symbols do not overlap. -/
  fft_le : options.fft ≤ options.symbol

/-- A number of samples that is not zero. -/
abbrev Stride := { n : Nat // 0 < n }

/-- Build a cutter. The symbols are at least as long as the fft, and the bandwidth, the timeout and
the preamble are not zero. -/
def CutterOptions.build {α τ : Type} [Scalar τ] (o : CutterOptions τ) :
    Except FramingError (SymbolCutter α τ) :=
  if hf : o.fft = 0 then .error (.parameter .zeroFft)
  else if hs : o.symbol < o.fft then .error (.prefixSize o.fft o.symbol)
  else if ¬ (Scalar.isFinite o.bandwidth ∧ Scalar.whole 0 < o.bandwidth) then
    .error (.parameter (.bandwidth (Scalar.written o.bandwidth)))
  else if o.timeout = 0 then .error (.parameter .noTimeout)
  else if o.preamble = 0 then .error (.parameter .noPreambleSymbols)
  else
    .ok {
      samples := .scalar "in"
      triggers := .scalar "trigger"
      symbols := { name := "out", width := o.fft, width_pos := Nat.pos_of_ne_zero hf }
      flags := .scalar "flag"
      options := o
      fft_pos := Nat.pos_of_ne_zero hf
      fft_le := Nat.le_of_not_lt hs }

namespace SymbolCutter

variable {α τ : Type}

theorem symbol_pos (c : SymbolCutter α τ) : 0 < c.options.symbol :=
  Nat.lt_of_lt_of_le c.fft_pos c.fft_le

/-- Whether the cutter is inside a frame. -/
def inFrame (c : SymbolCutter α τ) : Bool :=
  match c.phase with
  | .search => false
  | .frame _ => true

/-- The number of samples a look takes in. -/
def window (c : SymbolCutter α τ) : Nat := c.options.symbol + c.options.fft + 1

/-- The number of samples known with their triggers. -/
def available (c : SymbolCutter α τ) : Nat := min c.samples.items c.triggers.items

/-- How far behind the first fft length of samples the first trigger of the window is. -/
def trigger? (c : SymbolCutter α τ) : Option Nat :=
  ((c.triggers.buffer.toList.drop c.options.fft).take (c.options.symbol + 1)).findIdx? (· != 0)

/-! ### Times and offsets -/

/-- Take note of the tags on the samples before `last` that were not looked at before. -/
def observe (c : SymbolCutter α τ) (last : Nat) : Except FramingError (SymbolCutter α τ) :=
  let first := max c.seen c.samples.read
  if last ≤ first then .ok c
  else do
    let anchor ←
      match c.samples.latest? first last Tag.rxTime with
      | none => pure c.anchor
      | some tag =>
        match tag.time? with
        | none => pure c.anchor
        | some time =>
          if tag.index = 0 then pure (some (0, time))
          else
            match c.options.policy with
            | .rebase => pure (some (tag.index, time))
            | .drop => pure c.anchor
            | .strict => throw (FramingError.timeTagOffset tag.index)
    let offset := (c.samples.latest? first last Tag.syncOffset).bind Tag.number?
    return { c with anchor, offset := offset.or c.offset, seen := last }

/-- The time of a sample, counted from the anchor, or from the start of the clock at the start of
the stream while there is none. -/
def timeAt [Rounded τ] (c : SymbolCutter α τ) (sample : Nat) : Except Fault (Timestamp τ) :=
  let (index, time) := c.anchor.getD (0, .zero)
  let elapsed : τ := (Scalar.whole sample - Scalar.whole index) / c.options.bandwidth
  time.shift elapsed

/-- Tag the next symbol with the time at which the burst with its trigger at `trigger` began, and
with the carrier offset if one is waiting. -/
def markBurst [Rounded τ] (c : SymbolCutter α τ) (source : String) (trigger : Nat) :
    Except Fault (SymbolCutter α τ) := do
  let preamble ← Fault.word (c.options.preamble * c.options.symbol)
  let time ← c.timeAt (trigger + 1 - preamble)
  let mark (key : String) (value : Tag.Value τ) : Tag τ :=
    { index := c.flags.written, key, value, source := some source }
  let flags := c.flags.attach (mark Tag.syncTime (.time time))
  match c.offset with
  | some x =>
    return { c with flags := flags.attach (mark Tag.syncOffset (.double x)), offset := none }
  | none => return { c with flags }

/-! ### Looking at the window -/

/-- Emit the symbol that starts `first` samples behind the next one. -/
def emit [Inhabited α] (c : SymbolCutter α τ) (first : Nat) (flag : UInt8) :
    Except Fault (SymbolCutter α τ) := do
  let symbols ← c.symbols.put ((c.samples.buffer.toList.drop first).take c.options.fft)
  let flags ← c.flags.put [flag]
  return { c with symbols, flags }

/-- Use up samples and their triggers. -/
def skip (c : SymbolCutter α τ) (n : Nat) : Except Fault (SymbolCutter α τ) := do
  return { c with samples := ← c.samples.consume n, triggers := ← c.triggers.consume n }

/-- The countdown after one more symbol of a frame. -/
def countdown (remaining : Nat) : Phase :=
  if remaining ≤ 1 then .search else .frame (remaining - 1)

/-- What one look at the window leads to. -/
inductive Look (α τ : Type) where
  | moved (c : SymbolCutter α τ) (used : Stride)
  | failed (cause : FramingError)

/-- Look at the window: cut at its first trigger, else cut the next symbol of the frame, else move
on. The tags up to the trigger, or on the whole window, are noted first. -/
def step [Inhabited α] [Rounded τ] (c : SymbolCutter α τ) (source : String) :
    Except Fault (Look α τ) :=
  let found := c.trigger?
  let scanned := found.elim c.window fun k => c.options.fft + k + 1
  match c.observe (c.samples.read + scanned) with
  | .error cause => .ok (.failed cause)
  | .ok c => do
    match found, c.phase with
    | some k, _ =>
      let c ← c.markBurst source (c.samples.read + c.options.fft + k)
      let c ← c.emit (k + 1) 1
      let c ← { c with phase := .frame c.options.timeout }.skip (k + 1)
      return .moved c ⟨k + 1, Nat.succ_pos k⟩
    | none, .frame remaining =>
      let used : Stride := ⟨c.options.symbol, c.symbol_pos⟩
      let c ← c.emit c.options.symbol 0
      let c ← { c with phase := countdown remaining }.skip used.val
      return .moved c used
    | none, .search =>
      let used := c.options.symbol + 1
      let c ← c.skip used
      return .moved c ⟨used, Nat.succ_pos _⟩

/-- Look on while `available` samples make up a window and there is room. A stream that has ended
in front of a window is finished, and so is its block. -/
def drain [Inhabited α] [Rounded τ] (c : SymbolCutter α τ) (source : String) (queue : MessageQueue)
    (available : Nat) : Except Fault (Turn (SymbolCutter α τ)) :=
  if _ : available < c.window then
    .ok { block := c, queue, finished := c.samples.closed || c.triggers.closed }
  else if c.symbols.room = 0 ∨ c.flags.room = 0 then .ok { block := c, queue }
  else
    match c.step source with
    | .error fault => .error fault
    | .ok (.failed cause) => .ok { block := c, queue, failure := some cause }
    | .ok (.moved next used) => next.drain source queue (available - used.val)
termination_by available
decreasing_by
  have := used.property
  have : 0 < c.window := Nat.succ_pos _
  omega

/-- Cut as many symbols as samples and room allow. -/
def work [Inhabited α] [Rounded τ] (c : SymbolCutter α τ) (source : String) (queue : MessageQueue) :
    Except Fault (Turn (SymbolCutter α τ)) := do
  let _ ← Fault.word c.window
  c.drain source queue c.available

/-- The number of samples that are enough for `n` symbols of a frame. -/
def forecast (c : SymbolCutter α τ) (n : Nat) : Except Fault Nat :=
  if n = 0 then .ok 0 else Fault.word (n * c.options.symbol + c.options.fft + 1)

instance : Block (SymbolCutter Sample Float) where
  kind := "OfdmSampler"
  inlets c := [.samples c.samples, .bytes c.triggers]
  outlets c := [.samples c.symbols, .bytes c.flags]
  setInlet c
    | 0, .samples p => { c with samples := p }
    | 1, .bytes p => { c with triggers := p }
    | _, _ => c
  setOutlet c
    | 0, .samples p => { c with symbols := p }
    | 1, .bytes p => { c with flags := p }
    | _, _ => c
  work c identity queue := c.work identity.source queue
  forecast c n := c.forecast n

end SymbolCutter

end OfdmBurst
