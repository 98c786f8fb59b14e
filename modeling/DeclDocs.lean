import DeclDocs.Cache.Session
import DeclDocs.Main
import DeclDocs.Proofs.Text.Spacing
import DeclDocs.Proofs.Text.Marks
import DeclDocs.Proofs.Text.Lines
import DeclDocs.Proofs.Lexical.Reading
import DeclDocs.Proofs.Lexical.Breaks
import DeclDocs.Proofs.Lexical.Nesting
import DeclDocs.Proofs.Declaration.Grammar
import DeclDocs.Proofs.Declaration.Stripping
import DeclDocs.Proofs.Signature.Written
import DeclDocs.Proofs.Signature.Parameters
import DeclDocs.Proofs.Signature.RoundTrip
import DeclDocs.Proofs.Signature.Search
import DeclDocs.Proofs.Signature.Layout
import DeclDocs.Proofs.Signature.Reread
import DeclDocs.Proofs.Signature.Retrace
import DeclDocs.Proofs.Signature.ParameterGroup
import DeclDocs.Proofs.Signature.Extraction
import DeclDocs.Proofs.Tag.Tokens
import DeclDocs.Proofs.Tag.Decoration
import DeclDocs.Proofs.Comment.Location
import DeclDocs.Proofs.Comment.Agreement
import DeclDocs.Proofs.Comment.Content
import DeclDocs.Proofs.Comment.Written
import DeclDocs.Proofs.Comment.GapLines
import DeclDocs.Proofs.Model.WrittenClass
import DeclDocs.Proofs.Model.RoundTrip
import DeclDocs.Proofs.Model.Enclosing
import DeclDocs.Proofs.Model.Members
import DeclDocs.Proofs.Model.Coherence
import DeclDocs.Proofs.Cache.Moves
import DeclDocs.Proofs.Cache.Coalescing
import DeclDocs.Proofs.Cache.Polling
import DeclDocs.Proofs.Cache.Provenance
import DeclDocs.Proofs.Cache.Invalidation
import DeclDocs.Proofs.Cache.Transparency
import DeclDocs.Proofs.Cache.Failure
import DeclDocs.Proofs.Cache.Representation
import DeclDocs.Proofs.Cache.Recency
import DeclDocs.Proofs.Json.Respelling
import DeclDocs.Proofs.Json.RoundTrip
import DeclDocs.Proofs.Outline.Answers
import DeclDocs.Proofs.Outline.Shapes
import DeclDocs.Proofs.Offsets.Bytes
import DeclDocs.Proofs.Offsets.Masks
import DeclDocs.Proofs.Offsets.Declarations
import DeclDocs.Proofs.Offsets.Signatures
import DeclDocs.Proofs.Offsets.Comments
import DeclDocs.Proofs.Offsets.Documents
import DeclDocs.Proofs.Lexical.Lexemes
import DeclDocs.Proofs.Comment.Exactness
import DeclDocs.Proofs.Comment.AnnotationGrammar
import DeclDocs.Proofs.Comment.AnnotationRows
import DeclDocs.Proofs.Comment.AnnotationGaps
import DeclDocs.Proofs.Declaration.TypePattern
import DeclDocs.Proofs.Outline.Preorder
import DeclDocs.Proofs.Declaration.TopLevel
import DeclDocs.Proofs.Text.Collapse
import DeclDocs.Proofs.Lexical.Rewording
import DeclDocs.Proofs.Declaration.Blindness
import DeclDocs.Proofs.Signature.Squeezed
import DeclDocs.Proofs.Signature.DecoratedLine
import DeclDocs.Proofs.Declaration.MemberWords
import DeclDocs.Proofs.Model.Access
import DeclDocs.Proofs.Declaration.AnnotatedLine
import DeclDocs.Proofs.Declaration.EnumArguments
import DeclDocs.Proofs.Model.Constructors
import DeclDocs.Proofs.Tag.Composition
import DeclDocs.Proofs.Declaration.FieldTypes
import DeclDocs.Proofs.Signature.Limit
import DeclDocs.Proofs.Offsets.Alignment
