import SynapsNotes.Framework.Transition
import SynapsNotes.Feedback.Relaunch
import SynapsNotes.Generation.StopSequences
import SynapsNotes.Generation.Decoding
import SynapsNotes.Generation.Window
import SynapsNotes.Generation.Stopping
import SynapsNotes.Framework.Sort
import SynapsNotes.Framework.Ties
import SynapsNotes.Chat.Isolation
import SynapsNotes.Chat.Cancellation
import SynapsNotes.Chat.Consistent
import SynapsNotes.Backup.Order
import SynapsNotes.Retrieval.Pipeline
import SynapsNotes.Retrieval.Monotone
import SynapsNotes.Retrieval.Schedules
import SynapsNotes.Retrieval.Buckets
import SynapsNotes.Knowledge.Overlap
import SynapsNotes.Knowledge.Pages
import SynapsNotes.Knowledge.Files
import SynapsNotes.Knowledge.Deletion
import SynapsNotes.Framework.Tasks
import SynapsNotes.Framework.Deposits
import SynapsNotes.Runtime.Freshness
import SynapsNotes.Runtime.Provenance
import SynapsNotes.Runtime.Loaded
import SynapsNotes.Downloads.Genuine
import SynapsNotes.Downloads.Completed
import SynapsNotes.Downloads.Interference
import SynapsNotes.Downloads.Retries
import SynapsNotes.Editor.Resumed
import SynapsNotes.Editor.Applied
import SynapsNotes.Backup.Extraction
import SynapsNotes.Sync.AutoRestore
import SynapsNotes.Runtime.Indexing
import SynapsNotes.Knowledge.Words
import SynapsNotes.Knowledge.Sizes
import SynapsNotes.Knowledge.Abbreviations
import SynapsNotes.Runtime.Refinement
import SynapsNotes.Backup.Documents
import SynapsNotes.Sync.Snapshots
import SynapsNotes.Sync.Synced
import SynapsNotes.Sync.Folder
import SynapsNotes.Runtime.Completeness
import SynapsNotes.Backup.KnowledgeBase
import SynapsNotes.Chat.Conversation
import SynapsNotes.Runtime.Unloading
