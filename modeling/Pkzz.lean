import Pkzz.Git.PermsProof
import Pkzz.Relay.ChannelEviction
import Pkzz.Acp.Retry
import Pkzz.Audit.Tampering
import Pkzz.Workflow.Template
import Pkzz.Workflow.Interval
import Pkzz.Pairing.Agreement
import Pkzz.Pairing.QrCodec
import Pkzz.ReadState.BudgetExact
import Pkzz.ReadState.Convergence
import Pkzz.Db.FenceSoundness
import Pkzz.Db.FenceRestore
import Pkzz.Relay.NoGap
import Pkzz.Relay.Bridge
import Pkzz.Db.ThreadExact
import Pkzz.Db.Resurrection
import Pkzz.Db.PushBatch
import Pkzz.Auth.Replay
import Pkzz.Audio.Replication
import Pkzz.Audio.Owned
import Pkzz.Acp.AtMostTwice
import Pkzz.Acp.ChainCap
import Pkzz.Acp.OneOutcome
import Pkzz.Agent.Paired
import Pkzz.Terminal.Bounded
import Pkzz.Kube.SecretsKept
import Pkzz.Acp.FlushableWork
import Pkzz.Acp.BatchOrder
import Pkzz.Acp.Fairness
import Pkzz.Git.RefGlob
import Pkzz.Relay.SubscriptionCounts
import Pkzz.Relay.NewestDefinition
import Pkzz.Acp.UsageDeltas
import Pkzz.Audio.Admission
import Pkzz.Mesh.Convergence
import Pkzz.Terminal.Conserved
import Pkzz.Core.EngramRefs
import Pkzz.Git.Materialize
import Pkzz.Relay.Pushdown
import Pkzz.Terminal.Tabs
import Pkzz.Terminal.Frames
import Pkzz.Core.Tenant
import Pkzz.Acp.Rules
import Pkzz.Agent.Recovery
import Pkzz.Git.SignatureFile
import Pkzz.Sdk.AtNames
