import TextTemplate.Options.Document
import TextTemplate.Proofs.EarliestError
import TextTemplate.Proofs.Repair
import TextTemplate.Proofs.Substitution
import TextTemplate.Template.Document
import TextTemplate.Proofs.Tiling
import TextTemplate.Proofs.Printing
import TextTemplate.Proofs.Agreement
import TextTemplate.Proofs.Concatenation
import TextTemplate.Proofs.Appending
import TextTemplate.Proofs.Staging
import TextTemplate.Proofs.Dollars
import TextTemplate.Proofs.JsonText
import TextTemplate.Proofs.ReadBack
import TextTemplate.Proofs.Values
import TextTemplate.Proofs.EntryPoints
import TextTemplate.Proofs.Identifiers
import TextTemplate.Proofs.Layers
import TextTemplate.Proofs.Unresolved
import TextTemplate.Proofs.Location
import TextTemplate.Proofs.ScanSteps
import TextTemplate.Proofs.Cuts
import TextTemplate.Proofs.JsonObject
import TextTemplate.Proofs.Mappings
import TextTemplate.Proofs.Pending
import TextTemplate.Proofs.Log
import TextTemplate.Proofs.Environment
import TextTemplate.Proofs.OptionsDocument
