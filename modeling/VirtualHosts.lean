import VirtualHosts.Main
import VirtualHosts.Nginx.Script
import VirtualHosts.Pool
import VirtualHosts.Proofs.Command
import VirtualHosts.Proofs.Compilation.Visits
import VirtualHosts.Proofs.Compilation.Positions
import VirtualHosts.Proofs.Compilation.Chains
import VirtualHosts.Proofs.Compilation.ServerBlocks
import VirtualHosts.Proofs.Dispatch.LiteralRoutes
import VirtualHosts.Proofs.Dispatch.Selection
import VirtualHosts.Proofs.Dispatch.Groups
import VirtualHosts.Proofs.Dispatch.LiteralLookup
import VirtualHosts.Proofs.Dispatch.LoneRoute
import VirtualHosts.Proofs.Dispatch.Locations
import VirtualHosts.Proofs.Compilation.Proxying
import VirtualHosts.Proofs.Compilation.Registrations
import VirtualHosts.Proofs.Compilation.Violations
import VirtualHosts.Proofs.Dispatch.Isolation
import VirtualHosts.Proofs.Dispatch.Specificity
import VirtualHosts.Proofs.Dispatch.Insertion
import VirtualHosts.Proofs.Dispatch.PlainNames
import VirtualHosts.Proofs.Dispatch.Outcomes
import VirtualHosts.Proofs.Compilation.Guarding
import VirtualHosts.Proofs.Compilation.Timeline
import VirtualHosts.Proofs.Delivery
import VirtualHosts.Proofs.Delivery.Repetition
import VirtualHosts.Proofs.Dispatch.Refusals
import VirtualHosts.Proofs.Compilation.Indifference
import VirtualHosts.Proofs.Nginx.Lines
import VirtualHosts.Proofs.Nginx.Reading
import VirtualHosts.Proofs.Declaration.Endpoints
import VirtualHosts.Proofs.Declaration.Trees
import VirtualHosts.Proofs.Dispatch.Hostnames
import VirtualHosts.Proofs.Manifest.Endpoints
import VirtualHosts.Proofs.Manifest.Translation
import VirtualHosts.Proofs.Pool
import VirtualHosts.Proofs.Nginx.Layout
import VirtualHosts.Proofs.Dispatch.Captures
import VirtualHosts.Proofs.Dispatch.Parameters
import VirtualHosts.Proofs.Dispatch.Conflicts
import VirtualHosts.Proofs.Dispatch.Serving
import VirtualHosts.Proofs.Manifest.Calls
import VirtualHosts.Proofs.Manifest.Failures
import VirtualHosts.Proofs.BuildSteps
import VirtualHosts.Proofs.Nginx.Building
import VirtualHosts.Proofs.Address
import VirtualHosts.Proofs.Settings
