import DiscordTranscript.Foundation.MachineInt
import DiscordTranscript.Foundation.OrderedList
import DiscordTranscript.Foundation.AssocSum
import DiscordTranscript.Foundation.Fallible
import DiscordTranscript.Foundation.Pointwise
import DiscordTranscript.Foundation.KeyedList
import DiscordTranscript.Foundation.Rendering
import DiscordTranscript.Foundation.Runs
import DiscordTranscript.Foundation.Interleaving
import DiscordTranscript.Foundation.Slots
import DiscordTranscript.Foundation.Timeline
import DiscordTranscript.Foundation.Sweep
import DiscordTranscript.Foundation.Separated
import DiscordTranscript.Foundation.ExpiringMap
import DiscordTranscript.Domain.Model
import DiscordTranscript.Infrastructure.StorageFs
import DiscordTranscript.Infrastructure.Storage
import DiscordTranscript.Infrastructure.Queue
import DiscordTranscript.Infrastructure.QueueClaims
import DiscordTranscript.Infrastructure.ObjectStore
import DiscordTranscript.Infrastructure.UploadGenerations
import DiscordTranscript.Infrastructure.UploadQueue
import DiscordTranscript.Infrastructure.UploadFrames
import DiscordTranscript.Infrastructure.UploadLedger
import DiscordTranscript.Infrastructure.UploadAccounting
import DiscordTranscript.Infrastructure.UploadDrain
import DiscordTranscript.Infrastructure.UploadGuarantees
import DiscordTranscript.Infrastructure.UploadSupersession
import DiscordTranscript.Infrastructure.UploadCancellation
import DiscordTranscript.Infrastructure.UploadRefusals
import DiscordTranscript.Infrastructure.UploadSharedStore
import DiscordTranscript.Infrastructure.UploadOrder
import DiscordTranscript.Infrastructure.UploadReceipts
import DiscordTranscript.Audio.Wav
import DiscordTranscript.Audio.Receiver
import DiscordTranscript.Audio.ReceiverInvariant
import DiscordTranscript.Audio.ReceiverTimeline
import DiscordTranscript.Audio.FrameAssembly
import DiscordTranscript.Audio.AssemblyLimits
import DiscordTranscript.Audio.RecordingSession
import DiscordTranscript.Audio.RecordingAccounting
import DiscordTranscript.Audio.RecordingIdentity
import DiscordTranscript.Audio.ChunkFile
import DiscordTranscript.Audio.ChunkNames
import DiscordTranscript.Audio.SongbirdAdapter
import DiscordTranscript.Audio.VoiceTick
import DiscordTranscript.Audio.Manifest
import DiscordTranscript.Audio.ManifestAgreement
import DiscordTranscript.Audio.SpeakerAudio
import DiscordTranscript.Audio.ManifestPieces
import DiscordTranscript.Application.SummaryWorker
import DiscordTranscript.Application.SummaryOwnership
import DiscordTranscript.Application.SummaryCompletion
import DiscordTranscript.Application.SummaryOutcomes
import DiscordTranscript.Application.RecordingCommands
import DiscordTranscript.Application.RecordingLifecycle
import DiscordTranscript.Application.RecordingWriter
import DiscordTranscript.Application.RecordingWriterInvariant
import DiscordTranscript.Application.RecordingWriterGuarantees
import DiscordTranscript.Application.SummaryRetry
import DiscordTranscript.Application.Mixdown
import DiscordTranscript.Application.MixdownClusters
import DiscordTranscript.Application.MixdownWindows
import DiscordTranscript.Application.MixdownWriter
import DiscordTranscript.Application.MixdownDense
import DiscordTranscript.Application.MixdownResampled
import DiscordTranscript.Infrastructure.Workspace
import DiscordTranscript.Infrastructure.Reconciler
import DiscordTranscript.Infrastructure.ReconcilerGuarantees
import DiscordTranscript.Foundation.TextReplace
import DiscordTranscript.Foundation.Utf8
import DiscordTranscript.Foundation.WordSearch
import DiscordTranscript.Infrastructure.ObjectListing
import DiscordTranscript.Infrastructure.AgentReads
import DiscordTranscript.Infrastructure.AgentPaging
import DiscordTranscript.Interfaces.Posting
import DiscordTranscript.Interfaces.SignedTokens
import DiscordTranscript.Interfaces.LoginRedirect
import DiscordTranscript.Interfaces.AudioRange
import DiscordTranscript.Interfaces.AuditCleanup
import DiscordTranscript.Foundation.Comparison
import DiscordTranscript.Foundation.InsertionMap
import DiscordTranscript.Interfaces.TranscriptIndex
import DiscordTranscript.Interfaces.RefreshCache
import DiscordTranscript.Interfaces.RbacResolution
import DiscordTranscript.Interfaces.PermissionCache
import DiscordTranscript.Interfaces.MembershipCache
import DiscordTranscript.Foundation.Text
import DiscordTranscript.Domain.Transcript
import DiscordTranscript.Domain.TranscriptText
import DiscordTranscript.Domain.TranscriptNormalization
import DiscordTranscript.Domain.TranscriptShift
import DiscordTranscript.Domain.TranscriptLines
import DiscordTranscript.Domain.Privacy
import DiscordTranscript.Foundation.Pattern
import DiscordTranscript.Domain.PiiPatterns
import DiscordTranscript.Domain.MaskingFences
import DiscordTranscript.Domain.MaskingStructure
import DiscordTranscript.Domain.MaskedTranscript
import DiscordTranscript.Domain.MaskedAddress
import DiscordTranscript.Domain.MaskedParts
import DiscordTranscript.Domain.MaskingTwice
import DiscordTranscript.Application.Transcription
import DiscordTranscript.Foundation.TextSearch
import DiscordTranscript.Application.TranscriptCorrection
import DiscordTranscript.Application.CorrectionChunks
import DiscordTranscript.Application.CorrectionStructure
import DiscordTranscript.Foundation.TextSlices
import DiscordTranscript.Application.CorrectionPositions
import DiscordTranscript.Application.LeakCheck
import DiscordTranscript.Application.LeakGuarantees
import DiscordTranscript.Application.SummaryContext
import DiscordTranscript.Application.CorrectionPrompt
import DiscordTranscript.Application.CorrectionFragments
import DiscordTranscript.Application.CorrectionEcho
import DiscordTranscript.Application.MeetingTitle
import DiscordTranscript.Application.FinalAsrCheckpoints
import DiscordTranscript.Application.LiveTranscription
import DiscordTranscript.Application.LiveOutbox
import DiscordTranscript.Application.LivePlacement
import DiscordTranscript.Application.LiveCompleteness
import DiscordTranscript.Application.TranscriptClock
import DiscordTranscript.Application.AutoStop
import DiscordTranscript.Application.AutoStopMoves
import DiscordTranscript.Application.AutoStopGuarantees
import DiscordTranscript.Application.AutoStopReservation
import DiscordTranscript.Infrastructure.SqlQueueGuarantees
import DiscordTranscript.Application.RecoveryCompletion
import DiscordTranscript.Application.RetentionCompletion
import DiscordTranscript.Application.ScheduleClaims
