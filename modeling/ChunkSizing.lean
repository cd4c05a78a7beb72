import ChunkSizing.Main
import ChunkSizing.Proofs.Plan.Tiling
import ChunkSizing.Proofs.Service.Admission
import ChunkSizing.Proofs.Service.Agreement
import ChunkSizing.Proofs.Binary64.Doubling
import ChunkSizing.Proofs.Transfer.Bytes
import ChunkSizing.Proofs.Remote.Usable
import ChunkSizing.Proofs.Plan.Planned
import ChunkSizing.Proofs.Program.Planning
import ChunkSizing.Proofs.Json.Skipping
import ChunkSizing.Proofs.Json.Denotation
import ChunkSizing.Proofs.Json.Recognition
import ChunkSizing.Proofs.Transfer.Grammar
import ChunkSizing.Proofs.Json.Rendering
import ChunkSizing.Proofs.Transfer.RoundTrip
import ChunkSizing.Proofs.Json.Document
import ChunkSizing.Proofs.Remote.Reception
import ChunkSizing.Proofs.Program.Outcomes
import ChunkSizing.Proofs.Program.Environment
import ChunkSizing.Proofs.Service.Decision
import ChunkSizing.Proofs.Plan.Admission
import ChunkSizing.Proofs.Rules.Nearest
import ChunkSizing.Proofs.Rules.Classes
import ChunkSizing.Proofs.Rules.Exact
import ChunkSizing.Proofs.Service.Influence
import ChunkSizing.Proofs.Transfer.Diagnosis
import ChunkSizing.Proofs.Transfer.Floor
import ChunkSizing.Proofs.Settings.Fields
import ChunkSizing.Proofs.Command.AnyOrder
import ChunkSizing.Proofs.Plan.Reading
import ChunkSizing.Proofs.Remote.Endpoint
import ChunkSizing.Proofs.Service.Notice
import ChunkSizing.Proofs.Transfer.Measurements
import ChunkSizing.Proofs.Transfer.Texts
