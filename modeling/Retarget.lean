import Retarget.Completion
import Retarget.Main
import Retarget.Proofs.Letters
import Retarget.Proofs.Trace
import Retarget.Proofs.Language
import Retarget.Proofs.Inclusion
import Retarget.Proofs.Packing
import Retarget.Proofs.Placement
import Retarget.Proofs.FinalWords
import Retarget.Proofs.TwoPass
import Retarget.Proofs.MovedOrigin
import Retarget.Proofs.Reachable
import Retarget.Proofs.Definitions
import Retarget.Proofs.Interactive
import Retarget.Proofs.Numerals
import Retarget.Proofs.Relocation
import Retarget.Proofs.Stopping
import Retarget.Proofs.Extension
import Retarget.Proofs.EarlyFinish
import Retarget.Proofs.Writable
import Retarget.Proofs.Lines
import Retarget.Proofs.Rejected
import Retarget.Proofs.Decoding
import Retarget.Proofs.Limits
import Retarget.Proofs.ExitCode
import Retarget.Proofs.Building
import Retarget.Proofs.Patching
import Retarget.Proofs.Reordering
import Retarget.Proofs.Fitting
import Retarget.Proofs.Records
import Retarget.Proofs.Reporting
import Retarget.Proofs.Tables
import Retarget.Proofs.Listing
import Retarget.Proofs.Grammar
import Retarget.Proofs.Encodings
import Retarget.Proofs.Completing
import Retarget.Proofs.StringLines
import Retarget.Proofs.AddressMap
import Retarget.Proofs.Visits
import Retarget.Proofs.Tiling
