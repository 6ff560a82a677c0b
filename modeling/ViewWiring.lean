import ViewWiring.Component.Instance
import ViewWiring.Dispatch.Script
import ViewWiring.Dispatch.Loop
import ViewWiring.Declaration.Expansion
import ViewWiring.Declaration.SourceText
import ViewWiring.Proofs.Component.Validity
import ViewWiring.Proofs.Dispatch.Queue
import ViewWiring.Proofs.Dispatch.Rollback
import ViewWiring.Proofs.View.Agreement
import ViewWiring.Proofs.Component.Conservation
import ViewWiring.Proofs.View.Repetition
import ViewWiring.Proofs.State.Resolution
import ViewWiring.Proofs.Component.Lifetime
import ViewWiring.Proofs.Component.Handlers
import ViewWiring.Proofs.Component.Placeholders
import ViewWiring.Proofs.Address.Layout
import ViewWiring.Proofs.Address.Grammar
import ViewWiring.Proofs.Address.Display
import ViewWiring.Proofs.Dispatch.Signals
import ViewWiring.Proofs.State.Access
import ViewWiring.Proofs.Dispatch.Chronicle
import ViewWiring.Proofs.Address.Order
import ViewWiring.Proofs.Binding.Ordering
import ViewWiring.Proofs.Binding.Registration
import ViewWiring.Proofs.State.Writing
import ViewWiring.Proofs.State.Framing
import ViewWiring.Proofs.State.Removal
import ViewWiring.Proofs.State.Substitution
import ViewWiring.Proofs.Component.Faults
import ViewWiring.Proofs.Component.Rearrangement
import ViewWiring.Proofs.Declaration.Attributes
import ViewWiring.Proofs.Declaration.Calls
import ViewWiring.Proofs.Declaration.Constructors
import ViewWiring.Proofs.Dispatch.Stopping
import ViewWiring.Proofs.Component.FirstFault
import ViewWiring.Proofs.View.Growth
import ViewWiring.Proofs.View.Scopes
import ViewWiring.Proofs.View.Appearance
import ViewWiring.Proofs.View.Walking
import ViewWiring.Proofs.View.Sameness
import ViewWiring.Proofs.View.Emitting
import ViewWiring.Proofs.View.Tags
import ViewWiring.Proofs.View.AttributeNames
import ViewWiring.Proofs.View.Rendering
import ViewWiring.Proofs.Address.Scanning
import ViewWiring.Proofs.Address.Faults
import ViewWiring.Proofs.Dispatch.Logging
import ViewWiring.Proofs.Dispatch.Batching
import ViewWiring.Proofs.Component.Overlays
import ViewWiring.Proofs.Component.RootKind
import ViewWiring.Proofs.Declaration.Stripping
import ViewWiring.Proofs.Declaration.Headers
