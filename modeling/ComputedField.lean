import ComputedField.Field.Basic
import ComputedField.Sql.Schema
import ComputedField.Stored.Settings
import ComputedField.Proofs.Markup.Growth
import ComputedField.Proofs.Markup.Numbering
import ComputedField.Proofs.Markup.Resume
import ComputedField.Proofs.Markup.RoundTrip
import ComputedField.Proofs.Markup.StringValue
import ComputedField.Proofs.Markup.WrittenElements
import ComputedField.Proofs.Query.Grammar
import ComputedField.Proofs.Query.Soundness
import ComputedField.Proofs.Query.Completeness
import ComputedField.Proofs.Decimal.Double
import ComputedField.Proofs.Decimal.Numeral
import ComputedField.Proofs.Sql.Meaning
import ComputedField.Proofs.Sql.Number
import ComputedField.Proofs.Decimal.Shortest
import ComputedField.Proofs.Decimal.ReadBack
import ComputedField.Proofs.Filter.Joins
import ComputedField.Proofs.Filter.Complement
import ComputedField.Proofs.Filter.Selection
import ComputedField.Proofs.Filter.Governed
import ComputedField.Proofs.Record.Grouping
import ComputedField.Proofs.Record.History
import ComputedField.Proofs.Query.Everywhere
import ComputedField.Proofs.Query.Kind
import ComputedField.Proofs.Sql.Like
import ComputedField.Proofs.Fallible
import ComputedField.Proofs.Markup.Tidy
import ComputedField.Proofs.Markup.Layout
import ComputedField.Proofs.Query.Order
import ComputedField.Proofs.Query.DepthLimit
import ComputedField.Proofs.Field.Nested
import ComputedField.Proofs.Markup.CharacterData
import ComputedField.Proofs.Markup.Reference
import ComputedField.Proofs.Query.Anchoring
import ComputedField.Proofs.Query.Enclosing
import ComputedField.Proofs.Template.Anchor
import ComputedField.Proofs.Template.Split
import ComputedField.Proofs.Template.Substitute
import ComputedField.Proofs.Query.Axes
import ComputedField.Proofs.Query.Additive
import ComputedField.Proofs.Query.Place
import ComputedField.Proofs.Query.Named
import ComputedField.Proofs.Query.Below
import ComputedField.Proofs.Query.Swapped
import ComputedField.Proofs.Query.Spacing
import ComputedField.Proofs.Query.Substring
import ComputedField.Proofs.Query.InRange
import ComputedField.Proofs.Query.Traversal
import ComputedField.Proofs.Text.LowerCase
import ComputedField.Proofs.Text.Runs
import ComputedField.Proofs.Text.Word
import ComputedField.Proofs.Format.Ampersand
import ComputedField.Proofs.Format.Handle
import ComputedField.Proofs.Format.Unescaped
import ComputedField.Proofs.Sql.Alias
