import DeclAtlas.Main
import DeclAtlas.Proofs.Dump.Access
import DeclAtlas.Proofs.Dump.Bases
import DeclAtlas.Proofs.Dump.CanonicalKinds
import DeclAtlas.Proofs.Dump.Endless
import DeclAtlas.Proofs.Dump.Lookups
import DeclAtlas.Proofs.Dump.Meanings
import DeclAtlas.Proofs.Dump.Nesting
import DeclAtlas.Proofs.Dump.Overloads
import DeclAtlas.Proofs.Dump.Records
import DeclAtlas.Proofs.Dump.Signatures
import DeclAtlas.Proofs.Dump.Specializations
import DeclAtlas.Proofs.Dump.Termination
import DeclAtlas.Proofs.Handles
import DeclAtlas.Proofs.Mentions
import DeclAtlas.Proofs.Sequence.Exchange
import DeclAtlas.Proofs.Sequence.Growth
import DeclAtlas.Proofs.Sequence.Histories
import DeclAtlas.Proofs.Sequence.Removal
import DeclAtlas.Proofs.Settings.NormalForm
import DeclAtlas.Proofs.Shape.Declarators
import DeclAtlas.Proofs.Source.Streams
import DeclAtlas.Proofs.Survey.AliasDepth
import DeclAtlas.Proofs.Survey.Export
import DeclAtlas.Proofs.Survey.LaterUses
import DeclAtlas.Proofs.Survey.Paths
import DeclAtlas.Proofs.Survey.TypeGraph
import DeclAtlas.Proofs.Survey.Unmodelled
import DeclAtlas.Source.Script
import DeclAtlas.Text.Quoted
