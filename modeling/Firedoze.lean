import Firedoze.Broker.IdleExit
import Firedoze.Broker.Exclusion
import Firedoze.Config.Append
import Firedoze.Idle.Session
import Firedoze.Idle.Ticks
import Firedoze.Limits.Scaling
import Firedoze.Manager.Lineage
import Firedoze.Manager.Saving
import Firedoze.Manager.Settings
import Firedoze.Manager.Shutdown
import Firedoze.Manager.Validity
import Firedoze.Proxy.Caddy
import Firedoze.Proxy.Protected
import Firedoze.Proxy.Redirect
import Firedoze.Proxy.Waking
import Firedoze.Snapshot.Leftovers
import Firedoze.Snapshot.Unpack
import Firedoze.Store.Matching
import Firedoze.WireGuard.Follow
import Firedoze.Client.Flags
import Firedoze.Client.Quote
import Firedoze.Client.Servers
import Firedoze.Disk.Provision
import Firedoze.ImageBuilder.Deb
import Firedoze.ImageBuilder.Populate
import Firedoze.Memory.Hotplug
import Firedoze.Network.Listen
import Firedoze.Network.Room
