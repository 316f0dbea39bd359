import VhdlLowering.Builder
import VhdlLowering.ClauseWalk
import VhdlLowering.Main
import VhdlLowering.Name.Handles
import VhdlLowering.Proofs.Acceptance
import VhdlLowering.Proofs.Blame
import VhdlLowering.Proofs.DesignFiles
import VhdlLowering.Proofs.Interned
import VhdlLowering.Proofs.Interning
import VhdlLowering.Proofs.Isolation
import VhdlLowering.Proofs.NestedScopes
import VhdlLowering.Proofs.Skeletons
import VhdlLowering.Proofs.Alike
import VhdlLowering.Proofs.Tokens
import VhdlLowering.Proofs.Reading
import VhdlLowering.Proofs.Scanning
import VhdlLowering.Proofs.StoredText
import VhdlLowering.Proofs.Wrappers
import VhdlLowering.Proofs.RoundTrip
import VhdlLowering.Proofs.Spellings
import VhdlLowering.Proofs.Opaque
import VhdlLowering.Proofs.Sequencing
import VhdlLowering.Proofs.WellFormed
import VhdlLowering.Proofs.CommandLines
import VhdlLowering.Proofs.Relocation
import VhdlLowering.Ast.Nesting
import VhdlLowering.Ast.Texts
import VhdlLowering.Text.Lines
import VhdlLowering.Proofs.Outlines
import VhdlLowering.Proofs.SourceTexts
import VhdlLowering.Proofs.Building
import VhdlLowering.Proofs.Clauses
import VhdlLowering.Proofs.NormalForm
import VhdlLowering.Proofs.EnumerationLiterals
import VhdlLowering.Proofs.WrappedItems
import VhdlLowering.Proofs.Histogram
import VhdlLowering.Proofs.DescendantSearch
import VhdlLowering.Proofs.SharedTables
