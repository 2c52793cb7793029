import LicenseHeaders.Main
import LicenseHeaders.Proofs.ReadAfterReplace
import LicenseHeaders.Proofs.Descent
import LicenseHeaders.Proofs.Listing
import LicenseHeaders.Proofs.Update
import LicenseHeaders.Proofs.Visit
import LicenseHeaders.Proofs.Batch
import LicenseHeaders.Proofs.WalkAsBatch
import LicenseHeaders.Proofs.UntouchedFiles
import LicenseHeaders.Proofs.LaterStores
import LicenseHeaders.Proofs.SecondRun
import LicenseHeaders.Proofs.Decoding
import LicenseHeaders.Proofs.Marking
import LicenseHeaders.Proofs.Derivation
import LicenseHeaders.Proofs.Loading
import LicenseHeaders.Proofs.Prepending
import LicenseHeaders.Proofs.WalkInvariants
import LicenseHeaders.Proofs.DryRun
import LicenseHeaders.Proofs.SimilarDirectories
import LicenseHeaders.Proofs.ExcludedDirectories
import LicenseHeaders.Proofs.ReportedOutcomes
import LicenseHeaders.Proofs.SecondCall
import LicenseHeaders.Proofs.Spelling
import LicenseHeaders.Proofs.Finding
import LicenseHeaders.Proofs.FaithfulJournal
import LicenseHeaders.Proofs.AddedLink
import LicenseHeaders.Proofs.SteadyDirectories
import LicenseHeaders.Proofs.IneligibleLink
import LicenseHeaders.Proofs.Pruning
import LicenseHeaders.Proofs.Linewise
import LicenseHeaders.Proofs.Rendering
import LicenseHeaders.Proofs.StrictDecoding
import LicenseHeaders.Proofs.PrintedPaths
import LicenseHeaders.Proofs.CommaLists
import LicenseHeaders.Proofs.NormalForm
import LicenseHeaders.Proofs.Extension
import LicenseHeaders.Proofs.ReplayedJournal
import LicenseHeaders.Proofs.ListedDirectories
