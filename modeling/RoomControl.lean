import RoomControl.Frame.Line
import RoomControl.Message
import RoomControl.Node.Messages
import RoomControl.Node.Tick
import RoomControl.Outbound.Dispatch
import RoomControl.Peripherals.Bench
import RoomControl.Program.Assembly
import RoomControl.Program.Machine
import RoomControl.Program.Upload
import RoomControl.Radio
import RoomControl.Storage.Load
import RoomControl.Proofs.Node.Guarded
import RoomControl.Proofs.Outbound.Lives
import RoomControl.Proofs.Program.Image
import RoomControl.Proofs.Program.Overlay
import RoomControl.Proofs.Program.Simulation
import RoomControl.Proofs.Program.Refusals
import RoomControl.Proofs.Program.Accesses
import RoomControl.Proofs.Peripherals.ReadBack
import RoomControl.Proofs.Outbound.Exchange
import RoomControl.Proofs.Frame.Reading
import RoomControl.Proofs.Node.Download
import RoomControl.Proofs.Node.Output
import RoomControl.Proofs.Node.Reporting
import RoomControl.Proofs.Frame.Stream
import RoomControl.Proofs.Radio.Attempts
import RoomControl.Proofs.Radio.Configured
import RoomControl.Proofs.Radio.InFlight
import RoomControl.Proofs.Node.Leftovers
import RoomControl.Proofs.Node.Stopped
import RoomControl.Proofs.Program.Loops
import RoomControl.Proofs.Radio.Peer
import RoomControl.Proofs.Radio.Line
import RoomControl.Proofs.Node.Inbound
import RoomControl.Proofs.Node.Rejected
import RoomControl.Proofs.Node.Echoed
import RoomControl.Proofs.Program.Repeats
import RoomControl.Proofs.Node.Transfers
import RoomControl.Proofs.Node.Redelivery
import RoomControl.Proofs.Node.SharedUpload
import RoomControl.Proofs.Config.Packing
import RoomControl.Proofs.Config.Document
import RoomControl.Proofs.Config.Comments
import RoomControl.Proofs.Config.Loading
import RoomControl.Proofs.Outbound.Schedule
import RoomControl.Proofs.Outbound.Listing
import RoomControl.Proofs.Outbound.Queueing
import RoomControl.Proofs.Radio.Timeouts
import RoomControl.Proofs.Radio.Backlog
import RoomControl.Proofs.Program.Masks
import RoomControl.Proofs.Message.Encoding
import RoomControl.Proofs.Radio.Commands
import RoomControl.Proofs.Radio.Events
import RoomControl.Proofs.Radio.Skipped
import RoomControl.Proofs.Frame.Packets
import RoomControl.Proofs.Frame.Switching
import RoomControl.Proofs.Frame.Corruption
import RoomControl.Proofs.Frame.Recovery
import RoomControl.Proofs.Program.Locality
import RoomControl.Proofs.Program.Checksum
