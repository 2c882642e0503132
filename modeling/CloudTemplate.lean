import CloudTemplate.Main
import CloudTemplate.Proofs.Command.Sections
import CloudTemplate.Proofs.Graph.Exploration
import CloudTemplate.Proofs.Graph.ForwardReferences
import CloudTemplate.Proofs.Graph.Insertions
import CloudTemplate.Proofs.Graph.Interpolation
import CloudTemplate.Proofs.Graph.NewNode
import CloudTemplate.Proofs.Graph.OutlineReading
import CloudTemplate.Proofs.Graph.ReleaseTurns
import CloudTemplate.Proofs.Graph.Roots
import CloudTemplate.Proofs.Graph.SearchMoves
import CloudTemplate.Proofs.Graph.Suggestions
import CloudTemplate.Proofs.Recovery.Filling
import CloudTemplate.Proofs.Recovery.Renaming
import CloudTemplate.Proofs.Reference.Segments
import CloudTemplate.Proofs.Registry.Snapshot
import CloudTemplate.Proofs.Template.Construction
import CloudTemplate.Proofs.Template.Schema
import CloudTemplate.Proofs.Template.UnsupportedKey
