import Ciruela.Blocks
import Ciruela.Client.Uploads
import Ciruela.Cluster.FetchConnects
import Ciruela.Cluster.InsertFile
import Ciruela.Cluster.Outstanding
import Ciruela.Cluster.UploadErrors
import Ciruela.Cluster.WeakUpload
import Ciruela.Daemon.Cleanup.Fewer
import Ciruela.Daemon.Confinement
import Ciruela.Daemon.Disk.RemoveDir
import Ciruela.Daemon.Disk.Siblings
import Ciruela.Daemon.Metadata.Authorisation
import Ciruela.Daemon.Metadata.Gathered
import Ciruela.Daemon.Metadata.Rollback
import Ciruela.Daemon.Metadata.ScansAgree
import Ciruela.Daemon.Metadata.SignedPath
import Ciruela.Daemon.Metadata.UsedImages
import Ciruela.Daemon.Peers.Ring
import Ciruela.Daemon.Peers.Stalled
import Ciruela.Daemon.Remote.Connections
import Ciruela.Daemon.Remote.Websocket
import Ciruela.Daemon.Tracking.Cluster
import Ciruela.Daemon.Tracking.Deletions
import Ciruela.Daemon.Tracking.DirHash
import Ciruela.Daemon.Tracking.Downloads
import Ciruela.Daemon.Tracking.FetchBlocks
import Ciruela.Daemon.Tracking.FetchIndex
import Ciruela.Daemon.Tracking.FirstScan
import Ciruela.Daemon.Tracking.Hosts
import Ciruela.Daemon.Tracking.Producers
import Ciruela.Daemon.Tracking.Restart
import Ciruela.Daemon.Tracking.ServedBlocks
import Ciruela.Daemon.Tracking.Slices
import Ciruela.Daemon.Tracking.Watched
import Ciruela.Proto.Request
import Ciruela.Daemon.Metadata.HardlinkSources
import Ciruela.Daemon.Tracking.Delivery
import Ciruela.Daemon.Server.News
import Ciruela.Cluster.Success
import Ciruela.Client.Edits
import Ciruela.Client.Prepare
import Ciruela.Client.DoUpload
import Ciruela.Daemon.Server.Asked
import Ciruela.Daemon.Server.Listed
