import SchemaSpec.Text.Shown
import SchemaSpec.Text.Utf8
import SchemaSpec.Number.Shortest
import SchemaSpec.Json
import SchemaSpec.Options.Literal
import SchemaSpec.Naming.Singular
import SchemaSpec.Table.Schema
import SchemaSpec.Enumeration.Declaration
import SchemaSpec.Document.Merge
import SchemaSpec.Settings
import SchemaSpec.Failure
import SchemaSpec.Files.Search
import SchemaSpec.Discovery.SchemaFile
import SchemaSpec.Discovery.ModelFiles
import SchemaSpec.Journal.Channels
import SchemaSpec.Journal.Program
import SchemaSpec.Console.Printed
import SchemaSpec.Generate
import SchemaSpec.CommandLine.Run
import SchemaSpec.Main
import SchemaSpec.Proofs.Listing.RoundTrip
import SchemaSpec.Proofs.Listing.Arrangement
import SchemaSpec.Proofs.Listing.PrimaryKeys
import SchemaSpec.Proofs.Listing.Layouts
import SchemaSpec.Proofs.Listing.Defaults
import SchemaSpec.Proofs.Document.Incremental
import SchemaSpec.Proofs.Document.Imitations
import SchemaSpec.Proofs.Document.Duplicates
import SchemaSpec.Proofs.Document.References
import SchemaSpec.Proofs.Document.Splice
import SchemaSpec.Proofs.Generate.Effect
import SchemaSpec.Proofs.Enumeration.Sources
import SchemaSpec.Proofs.Enumeration.Trailing
import SchemaSpec.Proofs.Enumeration.Quoted
import SchemaSpec.Proofs.Enumeration.Broken
import SchemaSpec.Proofs.Document.FreeText
import SchemaSpec.Proofs.Document.EnumTypes
import SchemaSpec.Proofs.Generate.EnumNames
import SchemaSpec.Proofs.CommandLine.Endings
import SchemaSpec.Proofs.Discovery.Relevance
import SchemaSpec.Proofs.Files.Searching
import SchemaSpec.Proofs.Naming.LastWord
import SchemaSpec.Proofs.Settings.Validity
import SchemaSpec.Proofs.Listing.Metadata
import SchemaSpec.Proofs.Options.NormalForm
import SchemaSpec.Proofs.Document.Members
import SchemaSpec.Proofs.Generate.Bytes
import SchemaSpec.Proofs.Journal.Brackets
