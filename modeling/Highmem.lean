import Highmem.Session
import Highmem.Sync.Monitor
import Highmem.Proofs.ReverseMap.Refinement
import Highmem.Proofs.Session.Agreement
import Highmem.Proofs.Paging.Shadow
import Highmem.Proofs.Pool.Tracking
import Highmem.Proofs.Pool.Flushing
import Highmem.Proofs.Session.Translation
import Highmem.Proofs.Sync.Tickets
import Highmem.Proofs.Pool.Balance
import Highmem.Proofs.Session.Queue
import Highmem.Proofs.Session.Wakeups
import Highmem.Proofs.Session.Replies
import Highmem.Proofs.Pool.Holding
import Highmem.Proofs.Session.Journal
import Highmem.Proofs.Session.Leases
import Highmem.Proofs.Pool.Holders
import Highmem.Proofs.Session.Conservation
import Highmem.Proofs.Pool.Window
import Highmem.Proofs.Session.Faults
import Highmem.Proofs.Pool.Renewal
import Highmem.Proofs.Session.Usable
import Highmem.Proofs.Session.Beyond
import Highmem.Proofs.Session.Filling
import Highmem.Proofs.Session.Handover
import Highmem.Proofs.Sync.Service
import Highmem.Proofs.Session.Renaming
import Highmem.Proofs.Session.Split
import Highmem.Proofs.Session.Interference
import Highmem.Proofs.Session.Crowding
import Highmem.Proofs.Session.Scanning
import Highmem.Proofs.Session.Revival
import Highmem.Proofs.Paging.Encoding
import Highmem.Proofs.Paging.Refinement
import Highmem.Proofs.Session.Verdict
import Highmem.Proofs.Session.Overfull
import Highmem.Proofs.ReverseMap.Closing
import Highmem.Proofs.Paging.Coverage
import Highmem.Proofs.Session.Locating
import Highmem.Proofs.Sync.Exclusion
import Highmem.Proofs.Sync.Calls
