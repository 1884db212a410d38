import Supacloud.Contracts.Theorems
import Supacloud.Commands.Theorems
import Supacloud.EdgeRuntime.Theorems
import Supacloud.FrontendActivation.Theorems
import Supacloud.BodyTransfer.Theorems
import Supacloud.AuditChain.Theorems
import Supacloud.Approval.Theorems
import Supacloud.BranchReplacement.Theorems
import Supacloud.Webhooks.Theorems
import Supacloud.Tasks.Theorems
import Supacloud.Workflows.Theorems
import Supacloud.ProjectConfig.Theorems
import Supacloud.ProjectMutations.Theorems
import Supacloud.Realtime.Theorems
import Supacloud.JitGateway.Theorems
import Supacloud.JitProxy.Theorems
import Supacloud.PostgresUpgrade.Theorems
import Supacloud.RuntimeAllocation.Theorems
import Supacloud.TenantCache.Theorems
import Supacloud.RealtimeProxy.Theorems
import Supacloud.Vectors.Theorems
import Supacloud.StorageVersions.Theorems
import Supacloud.ExecutionPolicy.Theorems
import Supacloud.LiteRealtime.Theorems
import Supacloud.DataDirLock.Theorems
import Supacloud.S3Handler.Theorems
import Supacloud.Worker.Theorems
import Supacloud.FrontendArchive.Theorems
import Supacloud.ApprovalModel.Theorems
import Supacloud.MemoryPressure.Theorems
import Supacloud.LiteRest.Theorems
import Supacloud.SystemdEnv.Theorems
import Supacloud.Usage.Theorems
import Supacloud.Diagnostics.Theorems
import Supacloud.RateLimit.Theorems
import Supacloud.OpenApi.Theorems
