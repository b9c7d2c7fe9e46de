import OfdmBurst.Text.Utf8
import OfdmBurst.Text.Numeral
import OfdmBurst.Frame.Header
import OfdmBurst.Carrier.Demapper
import OfdmBurst.Loopback
import OfdmBurst.Proofs.Fault
import OfdmBurst.Proofs.Stream.Record
import OfdmBurst.Proofs.Stream.Comparison
import OfdmBurst.Proofs.Stream.Transport
import OfdmBurst.Proofs.SymbolCutter.Segmentation
import OfdmBurst.Proofs.SymbolCutter.Run
import OfdmBurst.Proofs.SymbolCutter.Emission
import OfdmBurst.Proofs.SymbolCutter.Progress
import OfdmBurst.Proofs.Signal.Exact
import OfdmBurst.Proofs.Frame.Header
import OfdmBurst.Proofs.Frame.Parsing
import OfdmBurst.Proofs.Carrier.Demapping
import OfdmBurst.Proofs.Frame.Reception
import OfdmBurst.Proofs.FrameReceiver.Run
import OfdmBurst.Proofs.FrameReceiver.Refinement
import OfdmBurst.Proofs.Frame.Isolation
import OfdmBurst.Proofs.FrameReceiver.Isolation
import OfdmBurst.Proofs.Carrier.Bits
import OfdmBurst.Proofs.Frame.Bursts
import OfdmBurst.Proofs.FrameMapper.Emission
import OfdmBurst.Proofs.Carrier.Decisions
import OfdmBurst.Proofs.Frame.Hops
import OfdmBurst.Proofs.RoundTrip
import OfdmBurst.Proofs.PreambleInserter.Reference
import OfdmBurst.Proofs.PreambleInserter.Run
import OfdmBurst.Proofs.PreambleInserter.Emission
import OfdmBurst.Proofs.PreambleInserter.Refinement
import OfdmBurst.Proofs.CyclicPrefixer.Run
import OfdmBurst.Proofs.CyclicPrefixer.Emission
import OfdmBurst.Proofs.SymbolCutter.Timing
import OfdmBurst.Proofs.PreambleInserter.Bursts
import OfdmBurst.Proofs.PreambleInserter.Marks
import OfdmBurst.Proofs.CyclicPrefixer.Marks
import OfdmBurst.Proofs.Transmitter
import OfdmBurst.Proofs.SymbolCutter.Frames
import OfdmBurst.Proofs.Framing
import OfdmBurst.Proofs.CyclicPrefixer.Placement
import OfdmBurst.Proofs.FrameMapper.Reference
import OfdmBurst.Proofs.Carrier.Constellation
import OfdmBurst.Proofs.Carrier.Packing
import OfdmBurst.Proofs.Frame.Absorption
import OfdmBurst.Proofs.FrameReceiver.Safety
import OfdmBurst.Proofs.EndOfStream
import OfdmBurst.Proofs.FrameReceiver.Accounting
import OfdmBurst.Proofs.Carrier.Output
import OfdmBurst.Proofs.SymbolCutter.Marks
import OfdmBurst.Proofs.SymbolCutter.Thinning
import OfdmBurst.Proofs.SymbolCutter.Dropping
import OfdmBurst.Proofs.Stream.Timestamp
import OfdmBurst.Proofs.SymbolCutter.Edges
import OfdmBurst.Proofs.SymbolCutter.Strictness
import OfdmBurst.Proofs.Carrier.Centred
import OfdmBurst.Proofs.FrameMapper.Separation
import OfdmBurst.Proofs.CyclicPrefixer.Extension
import OfdmBurst.Proofs.FourierBlock.Run
import OfdmBurst.Proofs.Signal.Fourier
import OfdmBurst.Proofs.FourierBlock.Emission
import OfdmBurst.Proofs.FourierBlock.Shift
import OfdmBurst.Proofs.Signal.Circle
import OfdmBurst.Proofs.Carrier.Tracking
import OfdmBurst.Proofs.Carrier.Lock
import OfdmBurst.Proofs.FrameReceiver.Attribution
import OfdmBurst.Proofs.FrameReceiver.Tap
import OfdmBurst.Proofs.Stream.History
import OfdmBurst.Proofs.Carrier.Reading
import OfdmBurst.Proofs.Frame.Code
import OfdmBurst.Proofs.Carrier.Nearest
import OfdmBurst.Proofs.PreambleInserter.Termination
import OfdmBurst.Proofs.Forecast
import OfdmBurst.Proofs.FourierBlock.Symbolwise
