import Carriers.DmarcGate
import Carriers.Retry
import Carriers.Session
import Carriers.Membership
import Carriers.PostingRights
import Carriers.Transactions
import Carriers.Moderation
import Carriers.Resolution
import Carriers.Deduplication
import Carriers.Isolation
import Carriers.OwnMail
import Carriers.Munging
import Carriers.SubjectPrefix
import Carriers.Seeding
import Carriers.Roles
import Carriers.Reachability
import Carriers.DomainPolicy
import Carriers.SignedHeaders
import Carriers.Rejections
import Carriers.Zone
import Carriers.PublishedKeys
import Carriers.Classification
import Carriers.MailLoops
import Carriers.Grants
import Carriers.HeldPosts
import Carriers.BounceCounts
import Carriers.Startup
import Carriers.InStep
import Carriers.Restart
import Carriers.Imports
import Carriers.ListNames
import Carriers.Approvals
import Carriers.Archive
