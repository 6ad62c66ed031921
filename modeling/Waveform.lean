import Waveform.Chart
import Waveform.Expr.Printer
import Waveform.Expr.Walk
import Waveform.Pulse.Codec
import Waveform.Sampler.Basic
import Waveform.Sampler.SettingsCodec
import Waveform.Proofs.Formula.Bounds
import Waveform.Proofs.Formula.Built
import Waveform.Proofs.Formula.Cost
import Waveform.Proofs.Float.Parts
import Waveform.Proofs.Float.Rounding
import Waveform.Proofs.Float.Operations
import Waveform.Proofs.Decimal.Nearest
import Waveform.Proofs.Decimal.Shortest
import Waveform.Proofs.Expr.Written
import Waveform.Proofs.Float.Order
import Waveform.Proofs.Formula.Literals
import Waveform.Proofs.Formula.RoundTrip
import Waveform.Proofs.Formula.Unclosed
import Waveform.Proofs.Formula.Located
import Waveform.Proofs.Formula.Trailing
import Waveform.Proofs.Float.Laws
import Waveform.Proofs.Float.Threshold
import Waveform.Proofs.Float.Value
import Waveform.Proofs.Float.Rounded
import Waveform.Proofs.Float.Finite
import Waveform.Proofs.Float.Error
import Waveform.Proofs.Float.Nonneg
import Waveform.Proofs.Pulse.Kernels
import Waveform.Proofs.Pulse.Spelled
import Waveform.Proofs.Pulse.Agreement
import Waveform.Proofs.Pulse.Operands
import Waveform.Proofs.Pulse.Magnitude
import Waveform.Proofs.Pulse.Cuts
import Waveform.Proofs.Pulse.Recognized
import Waveform.Proofs.Pulse.Bare
import Waveform.Proofs.Sampler.Grid
import Waveform.Proofs.Sampler.Plotted
import Waveform.Proofs.Sampler.Window
import Waveform.Proofs.Sampler.Hull
import Waveform.Proofs.Sampler.Area
import Waveform.Proofs.Sampler.Drawable
import Waveform.Proofs.Float.Powers
import Waveform.Proofs.Sampler.Reachable
import Waveform.Proofs.Sampler.AreaSign
import Waveform.Proofs.Json.RoundTrip
import Waveform.Proofs.Json.Accepted
import Waveform.Proofs.Json.Exact
import Waveform.Proofs.Sampler.Stored
import Waveform.Proofs.Sampler.Log
import Waveform.Proofs.Sampler.Unsampled
import Waveform.Proofs.Sampler.Detected
import Waveform.Proofs.Sampler.Framed
import Waveform.Proofs.Pulse.Support
import Waveform.Proofs.Formula.Abandoned
import Waveform.Proofs.Formula.Flattened
import Waveform.Proofs.Sampler.Magnitudes
import Waveform.Proofs.Formula.Ordered
import Waveform.Proofs.Formula.Runs
import Waveform.Proofs.Expr.Visits
import Waveform.Proofs.Sampler.Normalized
