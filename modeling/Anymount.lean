import Anymount.Cfapi.Callbacks
import Anymount.Cfapi.ChunkSize
import Anymount.Cfapi.Hydration
import Anymount.Cfapi.Placeholders
import Anymount.Cfapi.SideBySide
import Anymount.Fuse.Listing
import Anymount.Fuse.Reading
import Anymount.Fuse.Session
import Anymount.Handles
import Anymount.Library.Interleave
import Anymount.Library.Xdr
import Anymount.MemFs
import Anymount.Mounted
import Anymount.Nfs.Accept
import Anymount.Nfs.Budget
import Anymount.Nfs.Cleanup
import Anymount.Nfs.Clients
import Anymount.Nfs.Connection
import Anymount.Nfs.Envelope
import Anymount.Nfs.Exchange
import Anymount.Nfs.Greedy
import Anymount.Nfs.Lifecycle
import Anymount.Nfs.Listing
import Anymount.Nfs.MountArgs
import Anymount.Nfs.Outsider
import Anymount.Nfs.Path
import Anymount.Nfs.Ranges
import Anymount.Nfs.Reading
import Anymount.Nfs.RecordMark
import Anymount.Nfs.Refusal
import Anymount.Nfs.Secrecy
import Anymount.Nfs.Shutdown
import Anymount.Nfs.Stateless
import Anymount.Nfs.Times
import Anymount.Nfs.Unmount
import Anymount.Nfs.WellFormed
import Anymount.Nfs.Window
import Anymount.Nfs.XdrSequence
import Anymount.Readdir.Law
import Anymount.Tree
