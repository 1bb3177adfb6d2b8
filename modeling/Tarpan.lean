import Tarpan.Lib.TableWalk
import Tarpan.Lib.Checksum
import Tarpan.Bgpd.Route.WiserOrder
import Tarpan.Bgpd.Route.Process
import Tarpan.Bgpd.Wiser.Chain
import Tarpan.Bgpd.Wiser.Portal
import Tarpan.Bgpd.Wiser.StaticCosts
import Tarpan.Bgpd.Aspath.Aggregate
import Tarpan.Bgpd.Attr.Frame
import Tarpan.Bgpd.Attr.RoundTrip
import Tarpan.Bgpd.Attr.Safety
import Tarpan.Bgpd.Tarpan.Sharing
import Tarpan.Bgpd.Packet.Families
import Tarpan.Bgpd.Packet.Nlri
import Tarpan.Bgpd.Packet.Capability
import Tarpan.Bgpd.Rib.DampRun
import Tarpan.Bgpd.Rib.PrefixCount
import Tarpan.Ospfd.Exchange
import Tarpan.Ospfd.Route
import Tarpan.Ospfd.Received
import Tarpan.Zebra.Entries
import Tarpan.Ospf6d.Lsa
import Tarpan.Babeld.Feasible
import Tarpan.Babeld.BestRoute
import Tarpan.Babeld.Hello
import Tarpan.ZebraRib.Recursive
import Tarpan.Ospfd.FloodReliable
import Tarpan.Ospfd.LinkStateId
import Tarpan.Isisd.Snp
