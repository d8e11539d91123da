import MidIR.Proofs.Check.Diagnosis
import MidIR.Proofs.Check.Markers
import MidIR.Proofs.Check.Visits
import MidIR.Proofs.Temp.Substitution
import MidIR.Proofs.Temp.Growth
import MidIR.Proofs.Check.Prune
import MidIR.Proofs.Check.Reordering
import MidIR.Proofs.Graph.Schedule
import MidIR.Proofs.Check.Relabelling
import MidIR.Proofs.Operand.Identity
import MidIR.Proofs.Listing.Decoding
import MidIR.Proofs.Graph.Inverse
import MidIR.Proofs.Graph.Dangling
import MidIR.Proofs.Listing.Temps
import MidIR.Proofs.Table.Repeats
import MidIR.Proofs.Graph.Halting
