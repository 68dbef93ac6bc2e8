import Chip8.Guarded.Bank
import Chip8.Guarded.TimerLoop
import Chip8.Interchange
import Chip8.Main
import Chip8.Screen.Bytes
import Chip8.Proofs.Decoding
import Chip8.Proofs.Execution
import Chip8.Proofs.Ticking
import Chip8.Proofs.Histories
import Chip8.Proofs.Invariant
import Chip8.Proofs.StrictAccess
import Chip8.Proofs.Safety
import Chip8.Proofs.Refusals
import Chip8.Proofs.CallDiscipline
import Chip8.Proofs.Drawing
import Chip8.Proofs.LitPoints
import Chip8.Proofs.Flipping
import Chip8.Proofs.LastStores
import Chip8.Proofs.Scanning
import Chip8.Proofs.Nesting
import Chip8.Proofs.Records
import Chip8.Proofs.Interchanging
import Chip8.Proofs.Redrawing
import Chip8.Proofs.Batches
import Chip8.Proofs.Loading
import Chip8.Proofs.Encoding
import Chip8.Proofs.RunLoop
import Chip8.Proofs.SharedRunLoop
import Chip8.Proofs.KeyWaits
import Chip8.Proofs.Comparison
import Chip8.Proofs.Steps
import Chip8.Proofs.TimerSchedules
import Chip8.Proofs.Consulting
import Chip8.Proofs.Refitting
import Chip8.Proofs.Dialects
import Chip8.Proofs.Footprints
import Chip8.Proofs.Resetting
import Chip8.Proofs.Arithmetic
import Chip8.Proofs.FlagOrders
import Chip8.Proofs.Tones
import Chip8.Proofs.Commuting
import Chip8.Proofs.Numerals
import Chip8.Proofs.Escapes
import Chip8.Proofs.AssemblyText
import Chip8.Proofs.Listings
import Chip8.Proofs.Tracing
import Chip8.Proofs.Handles
import Chip8.Proofs.TimerDeeds
import Chip8.Proofs.TimerThreads
import Chip8.Proofs.Transfers
import Chip8.Proofs.FontKeeping
import Chip8.Proofs.PackedBytes
import Chip8.Proofs.Pictures
