import Signet.Text.Alphanumeric
import Signet.Text.Blank
import Signet.Source.Session
import Signet.Name
import Signet.Type.Substitution
import Signet.Signature.Basic
import Signet.Reading.Document
import Signet.Environment.Ancestry
import Signet.Ruby.Name
import Signet.Inline.Result
import Signet.Proofs.Environment.Hierarchy
import Signet.Proofs.Environment.TypeParams
import Signet.Proofs.Environment.Agreement
import Signet.Proofs.Inline.Extraction
import Signet.Proofs.Grammar.Alternatives
import Signet.Proofs.Reading.Follows
import Signet.Proofs.Reading.Functions
import Signet.Proofs.Reading.Generics
import Signet.Proofs.Reading.RoundTrip
import Signet.Proofs.Grammar.Positions
import Signet.Proofs.Reading.Faults
import Signet.Proofs.Reading.Excerpts
import Signet.Proofs.Reading.Carved
import Signet.Proofs.Reading.Nesting
import Signet.Proofs.Reading.Labels
import Signet.Proofs.Source.Histories
import Signet.Proofs.Source.Detachment
import Signet.Proofs.Source.Lines
import Signet.Proofs.Source.Offsets
import Signet.Proofs.Reading.LastTokens
import Signet.Proofs.Inline.Gains
import Signet.Proofs.Inline.History
import Signet.Proofs.Inline.Methods
import Signet.Proofs.Inline.Placement
import Signet.Proofs.Environment.Entries
import Signet.Proofs.Environment.Merging
import Signet.Proofs.Environment.Superclasses
import Signet.Proofs.Environment.Linearization
import Signet.Proofs.Environment.Resolution
import Signet.Proofs.Type.Scopes
import Signet.Proofs.Reading.Scopes
import Signet.Proofs.Inline.Scopes
import Signet.Proofs.Inline.Completeness
import Signet.Proofs.Inline.Truncation
import Signet.Proofs.Reading.Literals
import Signet.Proofs.Reading.LiteralTokens
import Signet.Proofs.Reading.Arrangement
import Signet.Proofs.Inline.Precedence
import Signet.Proofs.Inline.Dealing
import Signet.Proofs.Inline.Effects
import Signet.Proofs.Inline.Accounting
import Signet.Proofs.Inline.Selection
import Signet.Proofs.Type.Substitution
import Signet.Proofs.Inline.Balance
import Signet.Proofs.Inline.Sections
