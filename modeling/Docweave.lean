import Docweave.CommandLine.Notice
import Docweave.Job.Draft
import Docweave.Main
import Docweave.Proofs.Jobs.BlockFaults
import Docweave.Proofs.Jobs.RoundTrips
import Docweave.Proofs.Jobs.SourceCopies
import Docweave.Proofs.Jobs.Unfilled
import Docweave.Proofs.Layout.Headers
import Docweave.Proofs.Layout.ListMarks
import Docweave.Proofs.Sections.Inclusions
import Docweave.Proofs.Sections.SectionTexts
import Docweave.Proofs.Trees.CutKinds
import Docweave.Proofs.Trees.LeadingLineEnds
import Docweave.Proofs.Trees.LiftingEnds
import Docweave.Survey.Round
import Docweave.Trial.Run
