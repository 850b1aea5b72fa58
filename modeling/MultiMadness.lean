import MultiMadness.RunLib.Runs
import MultiMadness.RunLib.Family
import MultiMadness.RunLib.Fifo
import MultiMadness.TileLib.Tiles
import MultiMadness.CellLib.Cells
import MultiMadness.CycleLib.Scan
import MultiMadness.FieldLib.Fields
import MultiMadness.PollLib.Poll
import MultiMadness.StatLib.OrderStat
import MultiMadness.ScaleLib.Rescale
import MultiMadness.MapLib.Ordered
import MultiMadness.NumeralLib.Numeral
import MultiMadness.LatchLib.Latch
import MultiMadness.SquareLib.NearSquare
import MultiMadness.WakeLib.Event
import MultiMadness.Args
import MultiMadness.InputEvent
import MultiMadness.KeyState
import MultiMadness.KeyHistory
import MultiMadness.Routing
import MultiMadness.Dispatch
import MultiMadness.Bindings
import MultiMadness.Geometry
import MultiMadness.LatencyStats
import MultiMadness.Percentiles
import MultiMadness.Capture
import MultiMadness.KeyNames
import MultiMadness.Broadcaster
import MultiMadness.Handling
import MultiMadness.Injection
import MultiMadness.Cursor
import MultiMadness.Coordinates
import MultiMadness.Buttons
import MultiMadness.Plans
import MultiMadness.Options
import MultiMadness.SpscRing
import MultiMadness.RingSize
import MultiMadness.Feed
import MultiMadness.Pipeline
import MultiMadness.KeyPairing
import MultiMadness.Drops
import MultiMadness.Refresh
import MultiMadness.Accounting
import MultiMadness.Draining
import MultiMadness.Wakeups
import MultiMadness.Hooks
import MultiMadness.Swallowing
import MultiMadness.Posting
import MultiMadness.Feedback
import MultiMadness.Layout
import MultiMadness.DerivedGrid
import MultiMadness.Grid
import MultiMadness.Pip
import MultiMadness.Containment
import MultiMadness.Assignment
import MultiMadness.Session
import MultiMadness.Focus
import MultiMadness.Discovery
import MultiMadness.Windows
import MultiMadness.Messages
import MultiMadness.Launcher
import MultiMadness.Handles
import MultiMadness.Clients
import MultiMadness.Placement
import MultiMadness.Teardown
import MultiMadness.Slots
import MultiMadness.Startup
import MultiMadness.Rotation
import MultiMadness.Script
import MultiMadness.Desktop
import MultiMadness.StuckKeys
import MultiMadness.Mirroring
