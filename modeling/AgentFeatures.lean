import AgentFeatures.AgentDsl.ClosedPrograms
import AgentFeatures.AgentDsl.GoFields
import AgentFeatures.AgentDsl.InputSchema
import AgentFeatures.AgentDsl.Layout
import AgentFeatures.AgentDsl.RoundTrip
import AgentFeatures.Catalog.BestSelection
import AgentFeatures.Catalog.Comparators
import AgentFeatures.Catalog.Discovery
import AgentFeatures.Catalog.Partition
import AgentFeatures.Catalog.PublicationOrder
import AgentFeatures.Catalog.SemVer
import AgentFeatures.Catalog.VersionTexts
import AgentFeatures.Composer.Commute
import AgentFeatures.Composer.FreshNames
import AgentFeatures.Console.FlowBuilder
import AgentFeatures.Gateway.Accounting
import AgentFeatures.Gateway.Attestation
import AgentFeatures.Gateway.CallerContext
import AgentFeatures.Gateway.ChatStream
import AgentFeatures.Gateway.Choice
import AgentFeatures.Gateway.CompositeCalls
import AgentFeatures.Gateway.Contracts
import AgentFeatures.Gateway.DevRuns
import AgentFeatures.Gateway.ErrorPaths
import AgentFeatures.Gateway.Failures
import AgentFeatures.Gateway.GrpcInvoker
import AgentFeatures.Gateway.Isolation
import AgentFeatures.Gateway.JsonRpc
import AgentFeatures.Gateway.Learning
import AgentFeatures.Gateway.Market
import AgentFeatures.Gateway.Nesting
import AgentFeatures.Gateway.Payloads
import AgentFeatures.Gateway.Preferred
import AgentFeatures.Gateway.Provenance
import AgentFeatures.Gateway.RankOrder
import AgentFeatures.Gateway.ReadyProviders
import AgentFeatures.Gateway.Recording
import AgentFeatures.Gateway.Redaction
import AgentFeatures.Gateway.Registry
import AgentFeatures.Gateway.Scoreboard
import AgentFeatures.Gateway.Signing
import AgentFeatures.Gateway.Totals
import AgentFeatures.Operator.Conditions
import AgentFeatures.Operator.Fleet
import AgentFeatures.Operator.Healing
import AgentFeatures.Operator.Idempotence
import AgentFeatures.Operator.Routing
import AgentFeatures.Operator.StatusRuns
