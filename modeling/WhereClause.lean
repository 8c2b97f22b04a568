import WhereClause.Main
import WhereClause.Proofs.Walk.Replay
import WhereClause.Proofs.Rendering.Grammar
import WhereClause.Proofs.Rendering.RoundTrip
import WhereClause.Proofs.Tree.RoundTrip
import WhereClause.Proofs.Walk.Levels
import WhereClause.Proofs.Walk.Nesting
import WhereClause.Proofs.Command.Defects
import WhereClause.Proofs.Command.Agreement
import WhereClause.Proofs.Tree.Canonical
import WhereClause.Proofs.Walk.History
import WhereClause.Proofs.Json.Layout
import WhereClause.Proofs.Json.Reading
import WhereClause.Proofs.Tree.Nesting
import WhereClause.Proofs.Command.Depth
import WhereClause.Proofs.Command.Written
import WhereClause.Proofs.Walk.Calls
import WhereClause.Proofs.Trace.Structure
import WhereClause.Proofs.Trace.Count
import WhereClause.Proofs.Binary64.Text
import WhereClause.Proofs.Literal.RoundTrip
import WhereClause.Proofs.Rendering.Respelling
import WhereClause.Proofs.Walk.Extension
import WhereClause.Proofs.Rendering.Refusal
import WhereClause.Proofs.Json.Blanks
import WhereClause.Proofs.Trace.Document
import WhereClause.Proofs.Command.Printed
import WhereClause.Proofs.Literal.Number
import WhereClause.Proofs.Walk.Unread
import WhereClause.Proofs.Walk.Deficient
import WhereClause.Proofs.Rendering.Kinds
import WhereClause.Proofs.Rendering.Items
import WhereClause.Proofs.Rendering.Names
