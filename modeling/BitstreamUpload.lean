import BitstreamUpload.LoaderFunction
import BitstreamUpload.Flag
import BitstreamUpload.Gang
import BitstreamUpload.Run
import BitstreamUpload.Target.Bench
import BitstreamUpload.Proofs.Turns
import BitstreamUpload.Proofs.Bus.Summary
import BitstreamUpload.Proofs.Bus.Controller
import BitstreamUpload.Proofs.Chunk.Plan
import BitstreamUpload.Proofs.Chunk.Notes
import BitstreamUpload.Proofs.Chunk.StartUp
import BitstreamUpload.Proofs.Responder.Plan
import BitstreamUpload.Proofs.Controllers
import BitstreamUpload.Proofs.StatusHistory
import BitstreamUpload.Proofs.Responder.Tally
import BitstreamUpload.Proofs.Bus.Bitstream
import BitstreamUpload.Proofs.Responder.Upload
import BitstreamUpload.Proofs.Responder.Delivery
import BitstreamUpload.Proofs.Responder.Diagnostic
import BitstreamUpload.Proofs.Bus.Waveform
import BitstreamUpload.Proofs.BusDiscipline
import BitstreamUpload.Proofs.Gang.Delivery
import BitstreamUpload.Proofs.Gang.StartUp
import BitstreamUpload.Proofs.Sections
import BitstreamUpload.Proofs.Responder.Sections
import BitstreamUpload.Proofs.FlagHistory
import BitstreamUpload.Proofs.Responder.Reception
import BitstreamUpload.Proofs.Responder.Batches
import BitstreamUpload.Proofs.Responder.Refusal
import BitstreamUpload.Proofs.Bisimulation
import BitstreamUpload.Proofs.Responder.Omission
import BitstreamUpload.Proofs.Responder.Replies
import BitstreamUpload.Proofs.WireForm
import BitstreamUpload.Proofs.Bus.Polling
import BitstreamUpload.Proofs.Agreement
import BitstreamUpload.Proofs.Bus.Agreement
import BitstreamUpload.Proofs.Chunk.Agreement
import BitstreamUpload.Proofs.Responder.Forgetting
import BitstreamUpload.Proofs.LoaderFunction.Delivery
import BitstreamUpload.Proofs.LoaderFunction.Idle
import BitstreamUpload.Proofs.LoaderFunction.Routing
import BitstreamUpload.Proofs.LoaderFunction.Resets
