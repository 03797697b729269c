import InterfaceKit.Main
import InterfaceKit.Summary
import InterfaceKit.Proofs.Generator.Delivered
import InterfaceKit.Proofs.Generator.Faults
import InterfaceKit.Proofs.Model.Separated
import InterfaceKit.Proofs.Generator.Isolation
import InterfaceKit.Proofs.Data.OverlayPaths
import InterfaceKit.Proofs.Documents.Annotating
import InterfaceKit.Proofs.Documents.Exporting
import InterfaceKit.Proofs.Filter.Rereading
import InterfaceKit.Proofs.Filter.Imported
import InterfaceKit.Proofs.Generator.RuleSections
import InterfaceKit.Proofs.Documents.Tagging
import InterfaceKit.Proofs.Documents.Untold
import InterfaceKit.Proofs.Doc.Indentation
import InterfaceKit.Proofs.Documents.Defaults
import InterfaceKit.Proofs.Documents.Layout
import InterfaceKit.Proofs.Filter.Namespace
import InterfaceKit.Proofs.Shell.Watching
import InterfaceKit.Proofs.Doc.InlineTags
