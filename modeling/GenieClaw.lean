import GenieClaw.Http.Framing
import GenieClaw.Http.CompleteHead
import GenieClaw.Jsonl
import GenieClaw.Home.ResolveOrder
import GenieClaw.Home.Ambiguity
import GenieClaw.Home.Evidence
import GenieClaw.Llm.Compaction
import GenieClaw.Llm.StreamedResponse
import GenieClaw.Memory.ShoppingRuns
import GenieClaw.Memory.CaptureRuns
import GenieClaw.Memory.Backfill
import GenieClaw.Memory.DurableRuns
import GenieClaw.Dispatch.Undo
import GenieClaw.Dispatch.Budget
import GenieClaw.Dispatch.ToolBudget
import GenieClaw.Dispatch.Redirect
import GenieClaw.Dispatch.Safety
import GenieClaw.Dispatch.ConcurrentUndo
import GenieClaw.Dispatch.Limiters
import GenieClaw.Server.Routes
import GenieClaw.Server.OriginAuth
import GenieClaw.Parser.Prose
import GenieClaw.Server.BrokenCalls
import GenieClaw.Server.ChatTurnGate
import GenieClaw.Conversation.Prune
import GenieClaw.Server.StreamAgreement
import GenieClaw.Dispatch.SkillTools
import GenieClaw.Skills.Runs
import GenieClaw.Governor.Runs
import GenieClaw.Voice.WakeLoop
import GenieClaw.Voice.RawUrls
import GenieClaw.Voice.SpokenReply
import GenieClaw.Voice.SpokenCalls
import GenieClaw.Telegram.Delivery
import GenieClaw.Egress.Provider
import GenieClaw.Egress.WebSearch
import GenieClaw.Egress.Escalation
import GenieClaw.Voice.SpeakerProfiles
import GenieClaw.Server.Directives
import GenieClaw.Conversation.SessionRegistry
import GenieClaw.Security.LoopGuard
import GenieClaw.Memory.Hydration
import GenieClaw.Memory.Fusion
import GenieClaw.Memory.Restated
import GenieClaw.Memory.Prune
import GenieClaw.Ota.Version
import GenieClaw.Security.Injection
import GenieClaw.Security.SanitizedOutput
import GenieClaw.Memory.Licensed
import GenieClaw.Telegram.SplitMessage
import GenieClaw.Voice.Hallucinations
import GenieClaw.Voice.Wav
import GenieClaw.Llm.GenericStream
import GenieClaw.Memory.Forget
import GenieClaw.Quick.Setpoints
import GenieClaw.Llm.PromptSha
import GenieClaw.Eval.SentenceTemplates
import GenieClaw.Eval.FailureClasses
