import ArmAssembly.Catalogue
import ArmAssembly.Proofs.Accounts
import ArmAssembly.Proofs.ListingAppend
import ArmAssembly.Proofs.Routing
import ArmAssembly.Proofs.Sessions
import ArmAssembly.Proofs.RenamedListing
import ArmAssembly.Proofs.RepeatedLines
import ArmAssembly.Proofs.Labels
import ArmAssembly.Proofs.DirectCalls
import ArmAssembly.Proofs.GuardedRecursion
import ArmAssembly.Proofs.LinesAbove
import ArmAssembly.Proofs.UnrecognisedTexts
import ArmAssembly.Proofs.Carets
import ArmAssembly.Proofs.ListGrammar
import ArmAssembly.Proofs.Sequencing
import ArmAssembly.Proofs.Fields
