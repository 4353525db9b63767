import QueryGate.Payload
import QueryGate.Server
import QueryGate.Settings.Load
import QueryGate.Settings.Strict
import QueryGate.Proofs.Completion
import QueryGate.Proofs.GraphQL.Lexing
import QueryGate.Proofs.GraphQL.Literals
import QueryGate.Proofs.GraphQL.Fractions
import QueryGate.Proofs.GraphQL.Spelling
import QueryGate.Proofs.GraphQL.Floats
import QueryGate.Proofs.GraphQL.Reading
import QueryGate.Proofs.GraphQL.Soundness
import QueryGate.Proofs.Operation.Resolved
import QueryGate.Proofs.Operation.Spelling
import QueryGate.Proofs.Operation.Reading
import QueryGate.Proofs.Operation.Expansion
import QueryGate.Proofs.Operation.RoundTrip
import QueryGate.Proofs.Operation.Acceptance
import QueryGate.Proofs.Operation.Condensed
import QueryGate.Proofs.Operation.Inlining
import QueryGate.Proofs.Operation.Agreement
import QueryGate.Proofs.Operation.Routes
import QueryGate.Proofs.Access.Restriction
import QueryGate.Proofs.Access.Exactness
import QueryGate.Proofs.Access.Paths
import QueryGate.Proofs.Access.Withheld
import QueryGate.Proofs.Access.Reported
import QueryGate.Proofs.Access.SharedPaths
import QueryGate.Proofs.Gate.Context
import QueryGate.Proofs.Gate.Strictness
import QueryGate.Proofs.Gate.Service
import QueryGate.Proofs.Gate.TypeRestriction
import QueryGate.Proofs.Gate.Roles
import QueryGate.Proofs.Gate.Settlement
import QueryGate.Proofs.Operation.Bodies
import QueryGate.Proofs.Schema.Extension
import QueryGate.Proofs.Gate.InterfaceRestriction
import QueryGate.Proofs.Gate.Endpoint
import QueryGate.Proofs.Access.Pruning
import QueryGate.Proofs.Access.Composition
import QueryGate.Proofs.Completion.Least
import QueryGate.Proofs.Completion.Locations
import QueryGate.Proofs.Access.Variables
import QueryGate.Proofs.Access.Collected
import QueryGate.Proofs.Operation.Counted
import QueryGate.Proofs.Operation.FragmentGraph
import QueryGate.Proofs.Operation.Limit
import QueryGate.Proofs.Access.ListedRoles
import QueryGate.Proofs.Access.Unchanged
import QueryGate.Proofs.Schema.Tables
import QueryGate.Proofs.Schema.Rearrangement
import QueryGate.Proofs.Access.Shape
import QueryGate.Proofs.Access.Decoding
