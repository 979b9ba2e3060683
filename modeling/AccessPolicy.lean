import AccessPolicy.Decision.Record
import AccessPolicy.Expr.Traversal
import AccessPolicy.Function.Library
import AccessPolicy.Proofs.Decision.RoundTrip
import AccessPolicy.Proofs.Evaluation.Deletion
import AccessPolicy.Proofs.Evaluation.Laziness
import AccessPolicy.Proofs.Evaluation.Lossless
import AccessPolicy.Proofs.Evaluation.Propagation
import AccessPolicy.Proofs.Evaluation.Redaction
import AccessPolicy.Proofs.Evaluation.Release
import AccessPolicy.Proofs.Evaluation.Selection
import AccessPolicy.Proofs.Evaluation.Subscriptions
import AccessPolicy.Proofs.Function.Masking
import AccessPolicy.Proofs.Index.Account
import AccessPolicy.Proofs.Index.Agreement
import AccessPolicy.Proofs.Index.Expansion
import AccessPolicy.Proofs.Index.Normalization
import AccessPolicy.Proofs.Index.Tables
import AccessPolicy.Proofs.Path.Preorder
import AccessPolicy.Proofs.Path.Slices
import AccessPolicy.Proofs.Pattern.WholeText
import AccessPolicy.Proofs.Policy.Attention
import AccessPolicy.Proofs.Policy.Forbidden
import AccessPolicy.Proofs.Policy.Justification
import AccessPolicy.Proofs.Policy.OneShot
import AccessPolicy.Proofs.Policy.Reference
import AccessPolicy.Proofs.Policy.Silence
import AccessPolicy.Proofs.Policy.Validation
import AccessPolicy.Proofs.Retrieval.Routes
import AccessPolicy.Proofs.Stream.Newest
import AccessPolicy.Proofs.Value.Equality
import AccessPolicy.Retrieval.Point
