import BackImage.Cli.HonouredFilters
import BackImage.Server.Ownership
import BackImage.Recovery.SelectedRestore
import BackImage.Ociimg.Labels
import BackImage.Server.LayoutAgreement
import BackImage.Backup.KeyHistory
import BackImage.Server.Scan
import BackImage.Backup.IndexAcceptance
import BackImage.Recovery.SelectedTar
import BackImage.Archive.SkippedEntries
import BackImage.Archive.MetadataTargets
import BackImage.Registry.PushOutcome
import BackImage.Server.SessionSafety
import BackImage.Backup.Resynchronise
import BackImage.Chunk.Planning
import BackImage.Recovery.OffsetLookup
import BackImage.Server.StreamLayers
import BackImage.Server.StreamProgress
import BackImage.Restore.VerifiedReads
import BackImage.Cli.PruneCommand
import BackImage.Registry.PruneStability
import BackImage.Registry.UploadRetries
import BackImage.Remote.UploadOnce
import BackImage.Remote.BufferedSends
import BackImage.Server.TokenBroker
import BackImage.Ociimg.MultiArch
import BackImage.Chunk.Fixed
import BackImage.Protocol.Frames
import BackImage.Server.StreamedRestore
import BackImage.Recovery.ArchiveRestore
