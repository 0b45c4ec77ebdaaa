import SchemaBot.Storage.Fencing
import SchemaBot.Storage.Updates
import SchemaBot.Operator.Settling
import SchemaBot.Operator.Cutover
import SchemaBot.Operator.Holders
import SchemaBot.Operator.Rollout
import SchemaBot.Storage.Atomicity
import SchemaBot.Operator.Projectors
import SchemaBot.Operator.Retries
import SchemaBot.Operator.Handoff
import SchemaBot.Operator.Failures
import SchemaBot.Api.Starts
import SchemaBot.Webhook.Gating
import SchemaBot.Webhook.Confirmation
import SchemaBot.Webhook.Results
import SchemaBot.Api.Observers
import SchemaBot.Webhook.Drift
import SchemaBot.Webhook.CheckGate
import SchemaBot.Webhook.Flags
import SchemaBot.Webhook.Releases
import SchemaBot.Webhook.Blocked
import SchemaBot.Tern.Stops
import SchemaBot.Tern.Cutovers
import SchemaBot.Tern.Conflicts
import SchemaBot.Tern.Planning
import SchemaBot.Tern.Requests
import SchemaBot.Engine.Restart
import SchemaBot.Engine.Branches
import SchemaBot.Engine.Deploys
import SchemaBot.Engine.Contexts
import SchemaBot.Engine.Volume
import SchemaBot.Engine.PendingDrops
