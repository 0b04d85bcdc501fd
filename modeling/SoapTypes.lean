import SoapTypes.Main
import SoapTypes.Proofs.Extraction.Description
import SoapTypes.Proofs.Extraction.Erasure
import SoapTypes.Proofs.Extraction.Failure
import SoapTypes.Proofs.Generation.Agreement
import SoapTypes.Proofs.Generation.Effects
import SoapTypes.Proofs.Extraction.Reordering
import SoapTypes.Proofs.Extraction.Accounted
import SoapTypes.Proofs.Inheritance.Order
import SoapTypes.Proofs.Inheritance.Reordering
import SoapTypes.Proofs.Reading.Attributes
import SoapTypes.Proofs.Reading.Assembly
import SoapTypes.Proofs.Reading.StartTags
import SoapTypes.Proofs.Writing.Faithful
import SoapTypes.Proofs.Writing.Roster
import SoapTypes.Proofs.Naming.Resolution
import SoapTypes.Proofs.Naming.Distinct
import SoapTypes.Proofs.Naming.Prefixes
import SoapTypes.Proofs.Writing.Grammar
import SoapTypes.Proofs.Naming.Identifiers
import SoapTypes.Proofs.Extraction.Lookup
import SoapTypes.Proofs.Extraction.Irregular
import SoapTypes.Proofs.Writing.Failure
import SoapTypes.Proofs.Writing.Members
import SoapTypes.Proofs.Generation.VersionText
import SoapTypes.Proofs.Naming.Warnings
import SoapTypes.Proofs.Inheritance.Index
import SoapTypes.Proofs.CommandLine.Choices
