import Mustache.Lambda.Recorder
import Mustache.Json.Write
import Mustache.Main
import Mustache.Partials
import Mustache.Proofs.Search
import Mustache.Proofs.Script
import Mustache.Proofs.Scanning
import Mustache.Proofs.Octets
import Mustache.Proofs.BlankLine
import Mustache.Proofs.Gathering
import Mustache.Proofs.StandAlone
import Mustache.Proofs.Fallback
import Mustache.Proofs.Excerpt
import Mustache.Proofs.Failing
import Mustache.Proofs.Inner
import Mustache.Proofs.Location
import Mustache.Proofs.Enumeration
import Mustache.Proofs.Sections
import Mustache.Proofs.Expansion
import Mustache.Proofs.Wrappers
import Mustache.Proofs.Refusal
import Mustache.Proofs.Ending
import Mustache.Proofs.Indentation
import Mustache.Proofs.JoinedLayout
import Mustache.Proofs.Macro
import Mustache.Proofs.Cutoff
import Mustache.Proofs.Terminal
import Mustache.Proofs.Limit
import Mustache.Proofs.Markup
import Mustache.Proofs.Missing
import Mustache.Proofs.Escaping
import Mustache.Proofs.Brackets
import Mustache.Proofs.CheckedLayout
import Mustache.Proofs.Reads
import Mustache.Proofs.Halting
import Mustache.Proofs.Navigation
import Mustache.Proofs.TrimPatterns
import Mustache.Proofs.Scenes
import Mustache.Proofs.Restoring
import Mustache.Proofs.Calls
import Mustache.Proofs.Invoking
import Mustache.Proofs.Entities
import Mustache.Proofs.Requests
import Mustache.Proofs.Estimate
import Mustache.Proofs.Blame
import Mustache.Proofs.Contained
import Mustache.Proofs.Leftovers
import Mustache.Proofs.Merging
import Mustache.Proofs.Mirror
import Mustache.Proofs.LineEnds
import Mustache.Proofs.Dotted
import Mustache.Proofs.IndentedLines
import Mustache.Proofs.Output
