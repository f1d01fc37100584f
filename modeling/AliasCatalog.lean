import AliasCatalog.Accessor.Inspect
import AliasCatalog.Main
import AliasCatalog.Proofs.Catalog.Order
import AliasCatalog.Proofs.Catalog.Outcome
import AliasCatalog.Proofs.Catalog.Resolution
import AliasCatalog.Proofs.Namespace.Mirror
import AliasCatalog.Proofs.Namespace.Collision
import AliasCatalog.Proofs.Accessor.Navigation
import AliasCatalog.Proofs.Plan.Exposure
import AliasCatalog.Proofs.Plan.Presentation
import AliasCatalog.Proofs.Plan.Views
import AliasCatalog.Proofs.Accessor.Proposals
import AliasCatalog.Proofs.Accessor.TypeNames
import AliasCatalog.Proofs.Namespace.Bare
import AliasCatalog.Proofs.Namespace.CanonicalText
import AliasCatalog.Proofs.Plan.Fingerprint
import AliasCatalog.Proofs.Plan.Methods
import AliasCatalog.Proofs.Plan.Outline
import AliasCatalog.Proofs.Catalog.Growth
import AliasCatalog.Proofs.Catalog.Malformed
import AliasCatalog.Proofs.Accessor.Sharing
import AliasCatalog.Proofs.Accessor.Coherence
import AliasCatalog.Proofs.Declaration.Json
import AliasCatalog.Proofs.Accessor.Search
import AliasCatalog.Proofs.Naming.AliasGrammar
import AliasCatalog.Proofs.Naming.FirstCome
import AliasCatalog.Proofs.Namespace.ClosedForm
