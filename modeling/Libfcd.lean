import Libfcd.Interaction.Program
import Libfcd.Interaction.Loop
import Libfcd.Interaction.Pieces
import Libfcd.Interaction.Watch
import Libfcd.Interaction.Settles
import Libfcd.Interaction.Terms
import Libfcd.Interaction.Layer
import Libfcd.Interaction.Schedule
import Libfcd.Memory.Buffer
import Libfcd.Memory.Words
import Libfcd.Memory.Blocks
import Libfcd.Memory.Plane
import Libfcd.Memory.Latest
import Libfcd.Memory.Queue
import Libfcd.Model.Calls
import Libfcd.Model.Common
import Libfcd.Model.Bootloader
import Libfcd.Model.Application
import Libfcd.Model.Outputs
import Libfcd.Model.Strings
import Libfcd.Model.Diagnose
import Libfcd.Model.Flash
import Libfcd.Model.Clients
import Libfcd.Proofs.Dealings
import Libfcd.Proofs.HostOrder
import Libfcd.Proofs.Exchange
import Libfcd.Proofs.Commands
import Libfcd.Proofs.Script
import Libfcd.Proofs.Opening
import Libfcd.Proofs.Sweep
import Libfcd.Devices.Link
import Libfcd.Devices.Fleet
import Libfcd.Devices.Bootloader
import Libfcd.Devices.Tuner
import Libfcd.Proofs.WriteTrace
import Libfcd.Proofs.Verify
import Libfcd.Proofs.WriteEffect
import Libfcd.Proofs.Refused
import Libfcd.Proofs.Steps
import Libfcd.Proofs.Loading
import Libfcd.Proofs.FlashTool
import Libfcd.Proofs.Tuner
import Libfcd.Proofs.Registers
import Libfcd.Proofs.Query
import Libfcd.Proofs.WireFormat
import Libfcd.Proofs.Traversal
import Libfcd.Proofs.Handles
import Libfcd.Proofs.Conversation
import Libfcd.Proofs.Diagnosis
import Libfcd.Proofs.Concurrency
import Libfcd.Proofs.Sleeping
import Libfcd.Proofs.Options
import Libfcd.Proofs.Trimming
import Libfcd.Proofs.AllOrNothing
import Libfcd.Proofs.Broadcast
import Libfcd.Proofs.AnyDevice
import Libfcd.Proofs.Passes
import Libfcd.Proofs.Codes
import Libfcd.Proofs.BlockLoop
import Libfcd.Proofs.Job
import Libfcd.Proofs.Prepare
import Libfcd.Proofs.Fleet
import Libfcd.Proofs.Display
import Libfcd.Proofs.Belongings
import Libfcd.Proofs.GiveBack
import Libfcd.Proofs.TrueLength
import Libfcd.Hidapi.Usage
import Libfcd.Hidapi.Reports
import Libfcd.Hidapi.Threads
import Libfcd.Hidapi.Usb
import Libfcd.Hidapi.Devices
import Libfcd.Hidapi.Stack
import Libfcd.Proofs.Numerals
import Libfcd.Proofs.UsbView
import Libfcd.Devices.Bus
import Libfcd.Proofs.Listing
import Libfcd.Proofs.OpenPath
import Libfcd.Proofs.OpenFirst
import Libfcd.Proofs.Stack
import Libfcd.Proofs.OnWire
import Libfcd.Proofs.Threads
import Libfcd.Proofs.Wakeups
import Libfcd.Devices.Wires
import Libfcd.Proofs.Wires
import Libfcd.Proofs.Reports
import Libfcd.Proofs.Settings
import Libfcd.Proofs.PutOut
import Libfcd.Proofs.EndToEnd
import Libfcd.Proofs.Usage
