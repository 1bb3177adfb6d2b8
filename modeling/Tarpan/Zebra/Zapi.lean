/-
Routes that daemons send to zebra: the messages of lib/zclient.c (`zapi_ipv4_route`, `zapi_ipv6_route`) and how
zebra/zserv.c reads them (`zread_ipv4_add`, `zread_ipv6_add`).
-/
import Tarpan.Lib.PrefixBits
import Tarpan.Lib.Sockunion

namespace Tarpan.Zebra

open Base Lib List Option

/-- `::`. -/
def unspecified : In6Addr := ⟨replicate 16 0, length_replicate ..⟩

/-- `struct zapi_ipv4` and `struct zapi_ipv6`, for addresses in `α`. Both counts go into one octet. -/
structure ZapiRoute (α : Type) where
  type : UInt8
  flags : UInt8
  message : UInt8
  safi : UInt16
  nexthop : List α
  ifindex : List UInt32
  distance : UInt8
  metric : UInt32
  count_le : nexthop.length + ifindex.length ≤ 255

open ZapiRoute

def checkFlag (v f : UInt8) : Bool := v &&& f ≠ 0
def zapiMessageNexthop : UInt8 := 0x01
def zapiMessageDistance : UInt8 := 0x04
def zapiMessageMetric : UInt8 := 0x08
def zebraFlagBlackhole : UInt8 := 0x04
def zebraFlagIbgp : UInt8 := 0x08
def zebraRouteBgp : UInt8 := 9
def zebraMaxPacketSiz : Nat := 4096

/-! ## Messages -/

/-- `zclient_create_header`; the length is filled in at the end. -/
def zclientCreateHeader (s : Stream) (command : UInt16) : Option Stream := do
  let s ← streamPutw s 6
  let s ← streamPutc s 255
  let s ← streamPutc s 2
  streamPutw s command

section Write
variable {α : Type}

def putNexthops (nexthopType : UInt8) (putAddr : Stream → α → Option Stream) (s : Stream) (api : ZapiRoute α) :
    Option Stream := do
  let s ← api.nexthop.foldlM (fun s a => do
    let s ← streamPutc s nexthopType
    putAddr s a) s
  api.ifindex.foldlM (fun s i => do
    let s ← streamPutc s 1
    streamPutl s i) s

/-- A field that goes into the message if `flag` says so. -/
def putIf (flag : Bool) (put : Stream → Option Stream) (s : Stream) : Option Stream := if flag then put s else some s

/-- The message without its length; `putNexthopInfo` writes the count and the next hops. -/
def putRoute {afi : Afi} (putNexthopInfo : Stream → ZapiRoute α → Option Stream) (cmd : UInt16) (p : Prefix afi)
    (api : ZapiRoute α) (s : Stream) : Option Stream := do
  let s ← zclientCreateHeader s cmd
  let s ← streamPutc s api.type
  let s ← streamPutc s api.flags
  let s ← streamPutc s api.message
  let s ← streamPutw s api.safi
  let s ← streamPutc s p.prefixlen
  let s ← streamPut s (p.octets.take (psize p.prefixlen))
  let s ← putIf (checkFlag api.message zapiMessageNexthop) (putNexthopInfo · api) s
  let s ← putIf (checkFlag api.message zapiMessageDistance) (streamPutc · api.distance) s
  putIf (checkFlag api.message zapiMessageMetric) (streamPutl · api.metric) s

/-- What the functions for both families do. -/
def zapiRoute {afi : Afi} (putNexthopInfo : Stream → ZapiRoute α → Option Stream) (cmd : UInt16) (p : Prefix afi)
    (api : ZapiRoute α) (obuf : Stream) : Option Stream := do
  let s ← putRoute putNexthopInfo cmd p api (streamReset obuf)
  streamPutwAt s 0 (.ofNat s.endp)

end Write

/-- The count of next hops of a route to a black hole is one, for the black hole. -/
def putCountIpv4 (s : Stream) (api : ZapiRoute UInt32) : Option Stream :=
  if checkFlag api.flags zebraFlagBlackhole then do
    let s ← streamPutc s 1
    streamPutc s 9
  else streamPutc s (.ofNat (api.nexthop.length + api.ifindex.length))

def putNexthopInfoIpv4 (s : Stream) (api : ZapiRoute UInt32) : Option Stream := do
  let s ← putCountIpv4 s api
  putNexthops 3 streamPutIpv4 s api

def putNexthopInfoIpv6 (s : Stream) (api : ZapiRoute In6Addr) : Option Stream := do
  let s ← streamPutc s (.ofNat (api.nexthop.length + api.ifindex.length))
  putNexthops 6 (fun s a => streamPut s a.octets) s api

def zapiIpv4Route (cmd : UInt16) (p : Prefix .ip) (api : ZapiRoute UInt32) (obuf : Stream) : Option Stream :=
  zapiRoute putNexthopInfoIpv4 cmd p api obuf

def zapiIpv6Route (cmd : UInt16) (p : Prefix .ip6) (api : ZapiRoute In6Addr) (obuf : Stream) : Option Stream :=
  zapiRoute putNexthopInfoIpv6 cmd p api obuf

/-! ## Routes of zebra -/

/-- `struct nexthop`, by `NEXTHOP_TYPE_*`. -/
inductive Nexthop where
  | ifindex (i : UInt32)
  | ipv4 (gate : UInt32)
  | ipv4Ifindex (gate : UInt32) (i : UInt32)
  | ipv6 (gate : In6Addr)
  | ipv6Ifindex (gate : In6Addr) (i : UInt32)
  | blackhole
  deriving DecidableEq

/-- `struct rib`. -/
@[ext]
structure Rib where
  type : UInt8
  flags : UInt8
  distance : UInt8
  metric : UInt32
  nexthops : List Nexthop
  deriving DecidableEq

/-- What zebra is given: the prefix and the route. `rib_add_ipv4_multipath` and `rib_add_ipv6` put it into the table
that `vrf_table` has for the SAFI; there is one for unicast and one for multicast from the start, and with another SAFI,
which no client sends, the route would be given up. -/
structure GivenRoute (afi : Afi) where
  p : Prefix afi
  safi : UInt16
  rib : Rib

def nexthopAdd (rib : Rib) (nexthop : Nexthop) : Rib := { rib with nexthops := rib.nexthops ++ [nexthop] }

def nexthopBlackholeAdd (rib : Rib) : Rib :=
  nexthopAdd { rib with flags := rib.flags ||| zebraFlagBlackhole } .blackhole

open Reader

/-- The fields of the header; the checks of `zebra_client_read`. -/
def zebraClientRead : Reader UInt16 := do
  let length ← getw
  let marker ← getc
  let version ← getc
  let command ← getw
  if marker ≠ 255 ∨ version ≠ 2 ∨ length < 6 ∨ zebraMaxPacketSiz < length.toNat then failure else pure command

/-- The first octets of a field of `n` octets that is zero otherwise. -/
def zeroFilled (n : Nat) (octets : List UInt8) : List UInt8 := (octets ++ replicate n 0).take n

theorem zeroFilled_length (n : Nat) (octets : List UInt8) : (zeroFilled n octets).length = n := by
  simp [zeroFilled]

/-- The prefix of a message. A length that is too large would overrun it. -/
def getPrefix (afi : Afi) : Reader (Prefix afi) := do
  let prefixlen ← getc
  let octets ← get (psize prefixlen)
  if h : prefixlen.toNat ≤ 8 * afi.octets then
    pure ⟨prefixlen, zeroFilled afi.octets octets, zeroFilled_length .., h⟩
  else failure

/-- What a message starts with. -/
structure RouteHead (afi : Afi) where
  type : UInt8
  flags : UInt8
  message : UInt8
  safi : UInt16
  p : Prefix afi

def getRouteHead (afi : Afi) : Reader (RouteHead afi) := do
  let type ← getc
  let flags ← getc
  let message ← getc
  let safi ← getw
  let p ← getPrefix afi
  pure ⟨type, flags, message, safi, p⟩

/-- A field that is in the message if `flag` says so. -/
def getIf {α : Type} (flag : Bool) (get : Reader α) (default : α) : Reader α := if flag then get else pure default

def getDistanceMetric (message : UInt8) : Reader (UInt8 × UInt32) := do
  let distance ← getIf (checkFlag message zapiMessageDistance) getc 0
  let metric ← getIf (checkFlag message zapiMessageMetric) getl 0
  pure (distance, metric)

section
variable (routeInfo : UInt8 → UInt8)

/-- The distance of a route of which none is known; `routeInfo` are the distances of `route_info`. -/
def defaultDistance (type flags : UInt8) : UInt8 :=
  if type = zebraRouteBgp ∧ checkFlag flags zebraFlagIbgp then 200 else routeInfo type

/-- The next hop that `zread_ipv4_add` reads, by its type. -/
def zreadNexthopIpv4 (rib : Rib) (nexthopType : UInt8) : Reader Rib :=
  match nexthopType with
  | 1 => do
    let i ← getl
    pure (nexthopAdd rib (.ifindex i))
  | 2 => do
    let n ← getc
    forward n.toNat
    pure rib
  | 3 => do
    let gate ← getl
    pure (nexthopAdd rib (.ipv4 gate))
  | 4 => do
    let gate ← getl
    let i ← getl
    pure (nexthopAdd rib (.ipv4Ifindex gate i))
  | 6 => do
    forward 16
    pure rib
  | 9 => pure (nexthopBlackholeAdd rib)
  | _ => pure rib

/-- The loop of `zread_ipv4_add`. -/
def zreadNexthopsIpv4 (rib : Rib) : Reader Rib := do
  let nexthopNum ← getc
  times nexthopNum.toNat (fun rib => do
    let nexthopType ← getc
    zreadNexthopIpv4 rib nexthopType) rib

/-- The distance that `rib_add_ipv4_multipath` gives to a route without one. -/
def ribAddIpv4Multipath (rib : Rib) : Rib :=
  if rib.distance = 0 then { rib with distance := defaultDistance routeInfo rib.type rib.flags } else rib

def zreadIpv4Add : Reader (GivenRoute .ip) := do
  let head ← getRouteHead .ip
  let new : Rib := ⟨head.type, head.flags, 0, 0, []⟩
  let rib ← getIf (checkFlag head.message zapiMessageNexthop) (zreadNexthopsIpv4 new) new
  let r ← getDistanceMetric head.message
  pure ⟨head.p, head.safi, ribAddIpv4Multipath routeInfo { rib with distance := r.1, metric := r.2 }⟩

/-- The next hop that `zread_ipv6_add` reads, by its type: it takes the place of the one before. -/
def zreadNexthopIpv6 (nexthop : In6Addr × UInt32) (nexthopType : UInt8) : Reader (In6Addr × UInt32) :=
  match nexthopType with
  | 6 => do
    let octets ← get 16
    if h : octets.length = 16 then pure (⟨octets, h⟩, nexthop.2) else failure
  | 1 => do
    let i ← getl
    pure (nexthop.1, i)
  | _ => pure nexthop

/-- The loop of `zread_ipv6_add`. -/
def zreadNexthopsIpv6 : Reader (In6Addr × UInt32) := do
  let nexthopNum ← getc
  times nexthopNum.toNat (fun nexthop => do
    let nexthopType ← getc
    zreadNexthopIpv6 nexthop nexthopType) (unspecified, 0)

/-- The route that `rib_add_ipv6` makes. -/
def ribAddIpv6 (type flags : UInt8) (gate : Option In6Addr) (ifindex metric : UInt32) (distance : UInt8) : Rib where
  type := type
  flags := flags
  distance :=
    if type = zebraRouteBgp ∧ checkFlag flags zebraFlagIbgp then 200
    else if distance = 0 then routeInfo type else distance
  metric := metric
  nexthops := match gate with
    | some gate => if ifindex ≠ 0 then [.ipv6Ifindex gate ifindex] else [.ipv6 gate]
    | none => [.ifindex ifindex]

def zreadIpv6Add : Reader (GivenRoute .ip6) := do
  let head ← getRouteHead .ip6
  let nexthop ← getIf (checkFlag head.message zapiMessageNexthop) zreadNexthopsIpv6 (unspecified, 0)
  let r ← getDistanceMetric head.message
  let gate := if nexthop.1 = unspecified then none else some nexthop.1
  pure ⟨head.p, head.safi, ribAddIpv6 routeInfo head.type head.flags gate nexthop.2 r.2 r.1⟩

end

/-- What comes of a message: the stream that `send` fills is the one that zebra reads. -/
def delivered {afi : Afi} (send : Stream → Option Stream) (read : Reader (GivenRoute afi)) :
    Option (GivenRoute afi) := do
  let s ← send (streamNew zebraMaxPacketSiz)
  let r ← (do
    let _ ← zebraClientRead
    read : Reader (GivenRoute afi)) s
  some r.1

/-! ## What is sent is what is read -/

variable {bs : List UInt8}

section Octets
variable {α : Type} {afi : Afi}

/-- The message has next hops. -/
abbrev ZapiRoute.lists (api : ZapiRoute α) : Bool := checkFlag api.message zapiMessageNexthop

/-- The distance and the metric that are sent; zero stands for none. -/
def ZapiRoute.sent (api : ZapiRoute α) : UInt8 × UInt32 :=
  (if checkFlag api.message zapiMessageDistance then api.distance else 0,
    if checkFlag api.message zapiMessageMetric then api.metric else 0)

def nexthopOctets (nexthopType : UInt8) (enc : α → List UInt8) (api : ZapiRoute α) : List UInt8 :=
  (api.nexthop.flatMap fun a => nexthopType :: enc a) ++ api.ifindex.flatMap fun i => 1 :: beBytes 4 i.toNat

def distanceMetricOctets (api : ZapiRoute α) : List UInt8 :=
  (if checkFlag api.message zapiMessageDistance then [api.distance] else []) ++
    if checkFlag api.message zapiMessageMetric then beBytes 4 api.metric.toNat else []

def headOctets (p : Prefix afi) (api : ZapiRoute α) : List UInt8 :=
  [api.type] ++ ([api.flags] ++ ([api.message] ++ (beBytes 2 api.safi.toNat ++
    ([p.prefixlen] ++ p.octets.take (psize p.prefixlen)))))

theorem headOctets_length (p : Prefix afi) (api : ZapiRoute α) : (headOctets p api).length = 6 + psize p.prefixlen := by
  have hp := p.psize_le
  simp only [headOctets, length_append, length_singleton, beBytes_length, length_take, p.length_eq]
  omega

theorem distanceMetricOctets_length (api : ZapiRoute α) : (distanceMetricOctets api).length ≤ 5 := by
  unfold distanceMetricOctets
  split_ifs <;> simp

theorem writes_putIf {f : Stream → Option Stream} (flag : Bool) (h : flag = true → Writes f bs) :
    Writes (putIf flag f) (if flag then bs else []) := by
  unfold putIf
  cases flag with
  | false => exact writes_nil
  | true => exact h rfl

theorem writes_putNexthops {nexthopType : UInt8} {putAddr : Stream → α → Option Stream} {enc : α → List UInt8}
    (h : ∀ a, Writes (putAddr · a) (enc a)) (api : ZapiRoute α) :
    Writes (putNexthops nexthopType putAddr · api) (nexthopOctets nexthopType enc api) :=
  (writes_foldlM fun a _ => (writes_putc nexthopType).bind (h a)).bind
    (writes_foldlM fun i _ => (writes_putc 1).bind (writes_putl i))

def routeOctets (cmd : UInt16) (p : Prefix afi) (api : ZapiRoute α) (info : List UInt8) : List UInt8 :=
  [255] ++ ([2] ++ (beBytes 2 cmd.toNat ++ (headOctets p api ++ (info ++ distanceMetricOctets api))))

variable (cmd : UInt16)

theorem routeOctets_length (p : Prefix afi) (api : ZapiRoute α) (info : List UInt8) :
    (routeOctets cmd p api info).length = 10 + psize p.prefixlen + info.length + (distanceMetricOctets api).length := by
  simp only [routeOctets, length_append, length_singleton, beBytes_length, headOctets_length]
  omega

variable {putInfo : Stream → ZapiRoute α → Option Stream} {info : List UInt8}

section
variable (p : Prefix afi) (api : ZapiRoute α) (hinfo : Writes (putIf api.lists (putInfo · api)) info)
include hinfo

theorem writes_putRoute : Writes (putRoute putInfo cmd p api) (beBytes 2 6 ++ routeOctets cmd p api info) := by
  have hhdr := (writes_putw 6).bind ((writes_putc 255).bind ((writes_putc 2).bind (writes_putw cmd)))
  have hend := (writes_putIf (checkFlag api.message zapiMessageDistance) fun _ => writes_putc api.distance).bind
    (writes_putIf (checkFlag api.message zapiMessageMetric) fun _ => writes_putl api.metric)
  have hall := hhdr.bind ((writes_putc api.type).bind ((writes_putc api.flags).bind ((writes_putc api.message).bind
    ((writes_putw api.safi).bind ((writes_putc p.prefixlen).bind
      ((writes_put (p.octets.take (psize p.prefixlen))).bind (hinfo.bind hend)))))))
  unfold routeOctets headOctets distanceMetricOctets
  exact hall

/-- The message: its length, and the octets that follow it. -/
theorem zapiRoute_eq (hroom : info.length ≤ 4000) :
    ∃ (s : Stream) (length : UInt16), zapiRoute putInfo cmd p api (streamNew zebraMaxPacketSiz) = some s ∧
      6 ≤ length.toNat ∧ length.toNat ≤ zebraMaxPacketSiz ∧
      s.unread = beBytes 2 length.toNat ++ routeOctets cmd p api info := by
  have hlength := routeOctets_length cmd p api info
  have hpsize : psize p.prefixlen ≤ 16 := by
    have hocts : afi.octets ≤ 16 := by cases afi <;> decide
    exact p.psize_le.trans hocts
  have hend := distanceMetricOctets_length api
  have hsize : zebraMaxPacketSiz = 4096 := rfl
  obtain ⟨s, hs, happ⟩ := writes_putRoute cmd p api hinfo (streamReset (streamNew zebraMaxPacketSiz)) (by
    rw [length_append, beBytes_length]
    show _ ≤ zebraMaxPacketSiz - 0
    omega)
  have hdata : s.data = [] ++ (beBytes 2 6 ++ routeOctets cmd p api info) := happ.data
  obtain ⟨s', hs', hdata', hgetp, -⟩ := streamPutwAt_spec 0 (.ofNat s.endp) hdata rfl (beBytes_length ..)
  have hendp : s.endp = 2 + (routeOctets cmd p api info).length := by
    rw [Stream.endp, hdata, nil_append, length_append, beBytes_length]
  have htoNat : (UInt16.ofNat s.endp).toNat = s.endp := by
    rw [UInt16.toNat_ofNat']
    omega
  refine ⟨s', .ofNat s.endp, ?_, ?_, ?_, ?_⟩
  · unfold zapiRoute
    rw [bind_of_some hs, hs']
  · omega
  · omega
  · unfold Stream.unread
    rw [hgetp, happ.getp, hdata']
    rfl

end

end Octets

section Reading
variable {α : Type} {afi : Afi}

/-- The prefix as it is read. -/
def sentPrefix (p : Prefix afi) : Prefix afi where
  prefixlen := p.prefixlen
  octets := zeroFilled afi.octets (p.octets.take (psize p.prefixlen))
  length_eq := zeroFilled_length ..
  prefixlen_le := p.prefixlen_le

variable (p : Prefix afi) {read : Reader (GivenRoute afi)}

theorem sentPrefix_bits : (sentPrefix p).bits = p.bits := by
  unfold Prefix.bits sentPrefix
  refine map_congr_left fun i hi => ?_
  rw [mem_range] at hi
  dsimp only at hi
  have hlen := p.prefixlen_le
  have hsize : psize p.prefixlen = (p.prefixlen.toNat + 7) / 8 := rfl
  have hlength := p.length_eq
  have hin : i / 8 < psize p.prefixlen := by omega
  unfold bitAt zeroFilled
  congr 1
  rw [getD_eq_getElem?_getD, getD_eq_getElem?_getD, getElem?_take_of_lt (by omega),
    getElem?_append_left (by rw [length_take]; omega), getElem?_take_of_lt hin]

theorem reads_getPrefix :
    Reads (getPrefix afi) ([p.prefixlen] ++ p.octets.take (psize p.prefixlen)) (sentPrefix p) := by
  have hlength : (p.octets.take (psize p.prefixlen)).length = psize p.prefixlen := by
    rw [length_take, p.length_eq, Nat.min_eq_left p.psize_le]
  have hpure := reads_pure (sentPrefix p)
  refine (reads_getc p.prefixlen).bind ?_
  rw [← append_nil (p.octets.take _)]
  refine (reads_get _ hlength).bind ?_
  rw [dif_pos p.prefixlen_le]
  exact hpure

theorem reads_getRouteHead (api : ZapiRoute α) :
    Reads (getRouteHead afi) (headOctets p api) ⟨api.type, api.flags, api.message, api.safi, sentPrefix p⟩ :=
  (reads_getc api.type).bind ((reads_getc api.flags).bind ((reads_getc api.message).bind ((reads_getw api.safi).bind
    ((reads_getPrefix p).map _))))

theorem reads_getIf {f : Reader α} {a default : α} (flag : Bool) (h : flag = true → Reads f bs a) :
    Reads (getIf flag f default) (if flag then bs else []) (if flag then a else default) := by
  unfold getIf
  cases flag with
  | false => exact reads_pure default
  | true => exact h rfl

theorem reads_getDistanceMetric (api : ZapiRoute α) : Reads (getDistanceMetric api.message) (distanceMetricOctets api)
    api.sent :=
  (reads_getIf _ fun _ => reads_getc api.distance).bind ((reads_getIf _ fun _ => reads_getl api.metric).map _)

theorem reads_zebraClientRead {length : UInt16} (cmd : UInt16) (hmin : 6 ≤ length.toNat)
    (hmax : length.toNat ≤ zebraMaxPacketSiz) :
    Reads zebraClientRead (beBytes 2 length.toNat ++ ([255] ++ ([2] ++ beBytes 2 cmd.toNat))) cmd := by
  have hcmd := reads_pure cmd
  refine (reads_getw length).bind ((reads_getc 255).bind ((reads_getc 2).bind ?_))
  rw [← append_nil (beBytes 2 cmd.toNat)]
  refine (reads_getw cmd).bind ?_
  have hlength : ¬ length < 6 := by
    exact not_lt.2 hmin
  rw [if_neg (by simp [hlength, hmax])]
  exact hcmd

theorem delivered_eq {putInfo : Stream → ZapiRoute α → Option Stream} {info : List UInt8}
    {r : GivenRoute afi} (cmd : UInt16) (p : Prefix afi) (api : ZapiRoute α)
    (hinfo : Writes (putIf api.lists (putInfo · api)) info)
    (hroom : info.length ≤ 4000) (hread : Reads read (headOctets p api ++ (info ++ distanceMetricOctets api)) r) :
    delivered (zapiRoute putInfo cmd p api) read = some r := by
  obtain ⟨s, length, hs, hmin, hmax, hunr⟩ := zapiRoute_eq cmd p api hinfo hroom
  have hall := (reads_zebraClientRead cmd hmin hmax).bind (g := fun _ => read) hread s [] (by
    rw [hunr, routeOctets]
    simp only [append_assoc, append_nil])
  unfold delivered
  rw [bind_of_some hs, hall]
  rfl

/-- Whatever it reads, `f` returns what has the property. -/
def Returns {β : Type} (f : Reader β) (Q : β → Prop) : Prop := ∀ s, Gives (f s) (Q ·.1)

variable {β γ : Type} {f : Reader β} {g : β → Reader γ} {Q : γ → Prop}

theorem returns_bind (h : ∀ b, Returns (g b) Q) : Returns (f >>= g) Q :=
  fun _ => Gives.get fun b _ => h b.1 b.2

/-- Where `bs` comes next, what `f` returns has the property. -/
def ReturnsOn {β : Type} (f : Reader β) (bs : List UInt8) (Q : β → Prop) : Prop :=
  ∀ (s : Stream) (rest : List UInt8), s.unread = bs ++ rest → Gives (f s) (Q ·.1)

theorem Returns.on {r : Reader γ} (h : Returns r Q) : ReturnsOn r [] Q := fun s _ _ => h s

theorem ReturnsOn.bind {b : β} {bs' : List UInt8} (hf : Reads f bs b) (hg : ReturnsOn (g b) bs' Q) :
    ReturnsOn (f >>= g) (bs ++ bs') Q := by
  intro s rest hs
  rw [append_assoc] at hs
  change Gives (f s >>= fun b => g b.1 b.2) _
  rw [hf s _ hs]
  refine hg _ rest ?_
  rw [unread_advance, hs, drop_left]

theorem delivered_returns {send : Stream → Option Stream} {Q : GivenRoute afi → Prop}
    (h : Returns read Q) : Gives (delivered send read) Q :=
  .get fun s _ => (returns_bind (fun _ => h) s).bind fun _ hr => .some hr

end Reading

/-! ## IPv4 -/

section Ipv4
variable {routeInfo : UInt8 → UInt8} {api : ZapiRoute UInt32}

/-- The route that a daemon means, with the next hops `nexthops`. A distance of zero is none. -/
def ZapiRoute.rib {α : Type} (routeInfo : UInt8 → UInt8) (api : ZapiRoute α) (nexthops : List Nexthop) : Rib where
  type := api.type
  flags := api.flags
  distance :=
    if checkFlag api.message zapiMessageDistance ∧ api.distance ≠ 0 then api.distance
    else defaultDistance routeInfo api.type api.flags
  metric := if checkFlag api.message zapiMessageMetric then api.metric else 0
  nexthops := nexthops

/-- The next hops that a daemon means. -/
def ZapiRoute.nexthopsIpv4 (api : ZapiRoute UInt32) : List Nexthop :=
  if checkFlag api.message zapiMessageNexthop then
    (if checkFlag api.flags zebraFlagBlackhole then [.blackhole] else []) ++
      (api.nexthop.map .ipv4 ++ api.ifindex.map .ifindex)
  else []

def infoOctetsIpv4 (api : ZapiRoute UInt32) : List UInt8 :=
  (if checkFlag api.flags zebraFlagBlackhole then [1, 9] else [.ofNat (api.nexthop.length + api.ifindex.length)]) ++
    nexthopOctets 3 (fun a => beBytes 4 a.toNat) api

variable (api : ZapiRoute UInt32)

theorem writes_putNexthopInfoIpv4 : Writes (putNexthopInfoIpv4 · api) (infoOctetsIpv4 api) := by
  refine Writes.bind ?_ (writes_putNexthops (fun a => writes_putl a) api)
  unfold putCountIpv4
  split
  · exact (writes_putc 1).bind (writes_putc 9)
  · exact writes_putc _

theorem nexthopOctets_length {α : Type} (nexthopType : UInt8) {enc : α → List UInt8} {n : Nat}
    (henc : ∀ a, (enc a).length = n) (api : ZapiRoute α) :
    (nexthopOctets nexthopType enc api).length = (n + 1) * api.nexthop.length + 5 * api.ifindex.length := by
  unfold nexthopOctets
  simp [henc, mul_comm]

theorem infoOctetsIpv4_length : (infoOctetsIpv4 api).length ≤ 4000 := by
  have hcnt := api.count_le
  unfold infoOctetsIpv4
  rw [length_append, nexthopOctets_length 3 fun a : UInt32 => beBytes_length 4 a.toNat]
  split <;> simp only [length_cons, length_nil] <;> omega

def Nexthop.octets : Nexthop → List UInt8
  | .ipv4 gate => [3] ++ beBytes 4 gate.toNat
  | .ifindex i => [1] ++ beBytes 4 i.toNat
  | _ => [9]

theorem nexthopOctets_eq : nexthopOctets 3 (fun a => beBytes 4 a.toNat) api =
    (api.nexthop.map Nexthop.ipv4 ++ api.ifindex.map Nexthop.ifindex).flatMap Nexthop.octets := by
  rw [flatMap_append, flatMap_map, flatMap_map]
  rfl

theorem foldl_nexthopAdd (rib : Rib) : ∀ l : List Nexthop,
    l.foldl nexthopAdd rib = { rib with nexthops := rib.nexthops ++ l }
  | [] => by rw [foldl_nil, append_nil]
  | x :: l => by
    rw [foldl_cons, foldl_nexthopAdd (nexthopAdd rib x) l]
    simp [nexthopAdd]

theorem reads_zreadNexthopsIpv4 (rib : Rib) (api : ZapiRoute UInt32) : Reads (zreadNexthopsIpv4 rib)
      ([.ofNat (api.nexthop.length + api.ifindex.length)] ++ nexthopOctets 3 (fun a => beBytes 4 a.toNat) api)
      { rib with nexthops := rib.nexthops ++ (api.nexthop.map .ipv4 ++ api.ifindex.map .ifindex) } := by
  refine (reads_getc _).bind ?_
  have hcnt : (UInt8.ofNat (api.nexthop.length + api.ifindex.length)).toNat =
      (api.nexthop.map Nexthop.ipv4 ++ api.ifindex.map Nexthop.ifindex).length := by
    have := api.count_le
    rw [UInt8.toNat_ofNat', length_append, length_map, length_map]
    omega
  rw [hcnt, nexthopOctets_eq, ← foldl_nexthopAdd]
  refine reads_times rib fun x hx rib => ?_
  rcases mem_append.1 hx with hx | hx
  · obtain ⟨gate, -, rfl⟩ := mem_map.1 hx
    exact (reads_getc 3).bind ((reads_getl gate).map fun gate => nexthopAdd rib (.ipv4 gate))
  · obtain ⟨i, -, rfl⟩ := mem_map.1 hx
    exact (reads_getc 1).bind ((reads_getl i).map fun i => nexthopAdd rib (.ifindex i))

theorem blackhole_or {flags : UInt8} (h : checkFlag flags zebraFlagBlackhole = true) :
    flags ||| zebraFlagBlackhole = flags := by
  have hall : ∀ n : Fin 256, checkFlag (UInt8.ofFin n) zebraFlagBlackhole = true →
      UInt8.ofFin n ||| zebraFlagBlackhole = UInt8.ofFin n := by decide +kernel
  exact hall flags.toFin h

theorem ribAddIpv4Multipath_eq (routeInfo : UInt8 → UInt8) (api : ZapiRoute UInt32) (nexthops : List Nexthop) :
    ribAddIpv4Multipath routeInfo
      ⟨api.type, api.flags, api.sent.1, api.sent.2, nexthops⟩ = api.rib routeInfo nexthops := by
  unfold ribAddIpv4Multipath rib sent
  by_cases hflag : checkFlag api.message zapiMessageDistance = true
  · by_cases hzero : api.distance = 0 <;> simp [hflag, hzero]
  · simp [hflag]

theorem reads_blackhole (rib : Rib) : Reads (zreadNexthopsIpv4 rib) [1, 9] (nexthopBlackholeAdd rib) := by
  have hone : Reads (getc >>= zreadNexthopIpv4 rib) [9] _ := (reads_getc 9).bind (reads_pure (nexthopBlackholeAdd rib))
  exact (reads_getc 1).bind (hone.bind (reads_pure _))

/-- The next hops are read as they are meant, but not what follows a black hole. -/
theorem reads_nexthopsIpv4 (h : api.lists = true →
      checkFlag api.flags zebraFlagBlackhole = true → api.nexthop = [] ∧ api.ifindex = []) :
    Reads (getIf api.lists (zreadNexthopsIpv4 ⟨api.type, api.flags, 0, 0, []⟩) ⟨api.type, api.flags, 0, 0, []⟩)
      (if api.lists then infoOctetsIpv4 api else [])
      ⟨api.type, api.flags, 0, 0, api.nexthopsIpv4⟩ := by
  have hval : (⟨api.type, api.flags, 0, 0, api.nexthopsIpv4⟩ : Rib) =
      if api.lists then ⟨api.type, api.flags, 0, 0, api.nexthopsIpv4⟩
      else ⟨api.type, api.flags, 0, 0, []⟩ := by
    unfold nexthopsIpv4
    split <;> rfl
  rw [hval]
  refine reads_getIf _ fun hflag => ?_
  unfold infoOctetsIpv4 nexthopsIpv4
  rw [if_pos hflag]
  by_cases hblack : checkFlag api.flags zebraFlagBlackhole = true
  · obtain ⟨hnh, hidx⟩ := h hflag hblack
    have hone := reads_blackhole ⟨api.type, api.flags, 0, 0, []⟩
    unfold nexthopBlackholeAdd nexthopAdd at hone
    rw [blackhole_or hblack] at hone
    unfold nexthopOctets
    rw [if_pos hblack, if_pos hblack, hnh, hidx]
    exact hone
  · rw [if_neg hblack, if_neg hblack]
    exact reads_zreadNexthopsIpv4 _ api

theorem writes_infoIpv4 :
    Writes (putIf api.lists (putNexthopInfoIpv4 · api)) (if api.lists then infoOctetsIpv4 api else []) :=
  writes_putIf _ fun _ => writes_putNexthopInfoIpv4 api

theorem infoIpv4_length : (if api.lists then infoOctetsIpv4 api else []).length ≤ 4000 := by
  split
  · exact infoOctetsIpv4_length api
  · exact Nat.zero_le _

theorem delivered_ipv4 (cmd : UInt16) (p : Prefix .ip) (api : ZapiRoute UInt32)
    (h : api.lists = true → checkFlag api.flags zebraFlagBlackhole = true →
      api.nexthop = [] ∧ api.ifindex = []) : delivered (zapiIpv4Route cmd p api) (zreadIpv4Add routeInfo) =
      some ⟨sentPrefix p, api.safi, api.rib routeInfo api.nexthopsIpv4⟩ := by
  refine delivered_eq cmd p api (writes_infoIpv4 api) (infoIpv4_length api) ?_
  rw [← ribAddIpv4Multipath_eq]
  exact (reads_getRouteHead p api).bind ((reads_nexthopsIpv4 api h).bind ((reads_getDistanceMetric api).map _))

/-- What follows the next hops does not change them. -/
theorem returns_distanceMetric (routeInfo : UInt8 → UInt8) (head : RouteHead .ip) (rib : Rib) :
    Returns (getDistanceMetric head.message >>= fun r =>
      pure (⟨head.p, head.safi, ribAddIpv4Multipath routeInfo { rib with distance := r.1, metric := r.2 }⟩ :
        GivenRoute .ip)) (·.rib.nexthops = rib.nexthops) := by
  refine returns_bind fun r s => .some ?_
  unfold ribAddIpv4Multipath
  split <;> rfl

section
variable (cmd : UInt16) (p : Prefix .ip) (api : ZapiRoute UInt32)

/-- Of a route to a black hole, no other next hop is read. -/
theorem delivered_blackhole (hflag : api.lists = true) (hblack : checkFlag api.flags zebraFlagBlackhole = true)
    {r : GivenRoute .ip} (hr : delivered (zapiIpv4Route cmd p api) (zreadIpv4Add routeInfo) = some r) :
    r.rib.nexthops = [.blackhole] := by
  obtain ⟨s, length, hs, hmin, hmax, hunr⟩ := zapiRoute_eq cmd p api (writes_infoIpv4 api) (infoIpv4_length api)
  have hone : Reads (getIf api.lists
      (zreadNexthopsIpv4 ⟨api.type, api.flags, 0, 0, []⟩) ⟨api.type, api.flags, 0, 0, []⟩) [1, 9]
      (nexthopBlackholeAdd ⟨api.type, api.flags, 0, 0, []⟩) := by
    rw [hflag]
    exact reads_blackhole _
  have hread := ReturnsOn.bind (g := fun _ => zreadIpv4Add routeInfo) (reads_zebraClientRead cmd hmin hmax)
    (ReturnsOn.bind (reads_getRouteHead p api) (ReturnsOn.bind hone
      (returns_distanceMetric routeInfo ⟨api.type, api.flags, api.message, api.safi, sentPrefix p⟩ _).on))
  unfold delivered zapiIpv4Route at hr
  rw [bind_of_some hs] at hr
  obtain ⟨r', hr', hr⟩ := bind_eq_some_iff.1 hr
  cases hr
  refine hread s (nexthopOctets 3 (fun a => beBytes 4 a.toNat) api ++ distanceMetricOctets api) ?_ r' hr'
  rw [hunr, routeOctets, if_pos hflag, infoOctetsIpv4, if_pos hblack]
  simp

/-- Zebra is given the route that is meant, where a route to a black hole has no other next hops. -/
theorem delivered_ipv4_iff (routeInfo : UInt8 → UInt8) :
    (∃ r, delivered (zapiIpv4Route cmd p api) (zreadIpv4Add routeInfo) = some r ∧ r.p.bits = p.bits ∧
      r.rib = api.rib routeInfo api.nexthopsIpv4) ↔ (api.lists = true → checkFlag api.flags zebraFlagBlackhole = true →
      api.nexthop = [] ∧ api.ifindex = []) := by
  constructor
  · rintro ⟨r, hr, -, hrib⟩ hflag hblack
    have hnhs := delivered_blackhole cmd p api hflag hblack hr
    rw [hrib, rib, nexthopsIpv4, if_pos hflag, if_pos hblack] at hnhs
    simpa using hnhs
  · intro h
    exact ⟨_, delivered_ipv4 cmd p api h, sentPrefix_bits p, rfl⟩

end

end Ipv4

/-! ## IPv6 -/

section Ipv6
variable {routeInfo : UInt8 → UInt8}

/-- The next hops that a daemon means. -/
def ZapiRoute.nexthopsIpv6 (api : ZapiRoute In6Addr) : List Nexthop :=
  if checkFlag api.message zapiMessageNexthop then api.nexthop.map .ipv6 ++ api.ifindex.map .ifindex else []

/-- Zebra makes one next hop, whatever the message lists. -/
theorem returns_zreadIpv6Add (routeInfo : UInt8 → UInt8) :
    Returns (zreadIpv6Add routeInfo) (·.rib.nexthops.length = 1) := by
  refine returns_bind fun head => returns_bind fun nexthop => returns_bind fun r s => .some ?_
  unfold ribAddIpv6
  dsimp only
  split
  · split <;> rfl
  · rfl

/-- The only next hop that a message lists can be told from all others. -/
def SingleNexthop (api : ZapiRoute In6Addr) : Prop :=
  (∃ gate, gate ≠ unspecified ∧ api.nexthop = [gate] ∧ api.ifindex = []) ∨ ∃ i, api.nexthop = [] ∧ api.ifindex = [i]

def infoOctetsIpv6 (api : ZapiRoute In6Addr) : List UInt8 :=
  [.ofNat (api.nexthop.length + api.ifindex.length)] ++ nexthopOctets 6 In6Addr.octets api

variable (api : ZapiRoute In6Addr)

theorem writes_putNexthopInfoIpv6 : Writes (putNexthopInfoIpv6 · api) (infoOctetsIpv6 api) := by
  have haddr : ∀ a : In6Addr, Writes (streamPut · a.octets) a.octets := fun a => writes_put a.octets
  unfold putNexthopInfoIpv6 infoOctetsIpv6
  exact (writes_putc _).bind (writes_putNexthops haddr api)

theorem reads_address (nexthop : In6Addr × UInt32) (gate : In6Addr) :
    Reads (getc >>= zreadNexthopIpv6 nexthop) ([6] ++ gate.octets) (gate, nexthop.2) := by
  have hpure := reads_pure (gate, nexthop.2)
  refine (reads_getc 6).bind ?_
  rw [← append_nil gate.octets]
  refine (reads_get gate.octets gate.length_eq).bind ?_
  rw [dif_pos gate.length_eq]
  exact hpure

variable {nexthop : In6Addr × UInt32}

theorem reads_single (h : Reads (getc >>= zreadNexthopIpv6 (unspecified, 0)) bs nexthop) :
    Reads zreadNexthopsIpv6 ([1] ++ bs) nexthop := by
  refine (reads_getc 1).bind ?_
  rw [← append_nil bs]
  exact h.bind (reads_pure nexthop)

/-- The next hop that zebra makes of the last address and of the last interface. -/
def madeNexthop (nexthop : In6Addr × UInt32) : Nexthop :=
  if nexthop.1 = unspecified then .ifindex nexthop.2
  else if nexthop.2 ≠ 0 then .ipv6Ifindex nexthop.1 nexthop.2 else .ipv6 nexthop.1

/-- The distance of a route of BGP within an AS is not the one of the message. -/
def DistanceKept (api : ZapiRoute In6Addr) : Prop :=
  api.type = zebraRouteBgp → checkFlag api.flags zebraFlagIbgp = true →
    checkFlag api.message zapiMessageDistance = true → api.distance = 0 ∨ api.distance = 200

theorem distance_eq_iff (nexthops : List Nexthop) :
    (if api.type = zebraRouteBgp ∧ checkFlag api.flags zebraFlagIbgp then 200
      else if api.sent.1 = 0 then routeInfo api.type else api.sent.1) = (api.rib routeInfo nexthops).distance ↔
    DistanceKept api := by
  unfold rib sent defaultDistance DistanceKept
  by_cases hibgp : api.type = zebraRouteBgp ∧ checkFlag api.flags zebraFlagIbgp = true
  · rw [if_pos hibgp, if_pos hibgp]
    by_cases hflag : checkFlag api.message zapiMessageDistance = true
    · by_cases hzero : api.distance = 0
      · simp [hzero]
      · rw [if_pos ⟨hflag, hzero⟩, eq_comm]
        exact ⟨fun h _ _ _ => .inr h, fun h => (h hibgp.1 hibgp.2 hflag).resolve_left hzero⟩
    · rw [if_neg fun h => hflag h.1]
      exact iff_of_true rfl fun _ _ h => absurd h hflag
  · rw [if_neg hibgp, if_neg hibgp]
    refine iff_of_true ?_ fun htype hfl => absurd ⟨htype, hfl⟩ hibgp
    by_cases hflag : checkFlag api.message zapiMessageDistance = true
    · by_cases hzero : api.distance = 0 <;> simp [hflag]
    · simp [hflag]

theorem ribAddIpv6_nexthops (type flags : UInt8) (nexthop : In6Addr × UInt32) (metric : UInt32) (distance : UInt8) :
    (ribAddIpv6 routeInfo type flags (if nexthop.1 = unspecified then none else some nexthop.1) nexthop.2 metric
      distance).nexthops = [madeNexthop nexthop] := by
  unfold ribAddIpv6 madeNexthop
  by_cases hgate : nexthop.1 = unspecified
  · rw [if_pos hgate, if_pos hgate]
  rw [if_neg hgate, if_neg hgate]
  by_cases hidx : nexthop.2 ≠ 0
  · rw [if_pos hidx]
    exact if_pos hidx
  · rw [if_neg hidx]
    exact if_neg hidx

/-- The route that zebra makes against the one that is meant. -/
theorem ribAddIpv6_eq_iff (nexthop : In6Addr × UInt32) (nexthops : List Nexthop) :
    ribAddIpv6 routeInfo api.type api.flags
      (if nexthop.1 = unspecified then none else some nexthop.1) nexthop.2 api.sent.2
      api.sent.1 = api.rib routeInfo nexthops ↔
    DistanceKept api ∧ [madeNexthop nexthop] = nexthops := by
  rw [← distance_eq_iff api nexthops]
  constructor
  · intro h
    exact ⟨congrArg Rib.distance h, (ribAddIpv6_nexthops ..).symm.trans (congrArg Rib.nexthops h)⟩
  · rintro ⟨hdist, hnhs⟩
    exact Rib.ext rfl rfl hdist rfl ((ribAddIpv6_nexthops ..).trans hnhs)

/-- What zebra is given, by the last address and the last interface that it reads. -/
theorem delivered_last (routeInfo : UInt8 → UInt8) (cmd : UInt16) (p : Prefix .ip6) (api : ZapiRoute In6Addr)
    (hflag : api.lists = true)
    (hinfo : Reads zreadNexthopsIpv6 (infoOctetsIpv6 api) nexthop) (hroom : (infoOctetsIpv6 api).length ≤ 4000) :
    delivered (zapiIpv6Route cmd p api) (zreadIpv6Add routeInfo) = some ⟨sentPrefix p, api.safi,
      ribAddIpv6 routeInfo api.type api.flags (if nexthop.1 = unspecified then none else some nexthop.1) nexthop.2
      api.sent.2 api.sent.1⟩ := by
  have hwrites : Writes (putIf api.lists (putNexthopInfoIpv6 · api)) (infoOctetsIpv6 api) := by
    rw [hflag]
    exact writes_putNexthopInfoIpv6 api
  have hreads : Reads (getIf api.lists zreadNexthopsIpv6 (unspecified, 0)) (infoOctetsIpv6 api) nexthop := by
    rw [hflag]
    exact hinfo
  exact delivered_eq cmd p api hwrites hroom
    ((reads_getRouteHead p api).bind (hreads.bind ((reads_getDistanceMetric api).map _)))

variable {api : ZapiRoute In6Addr}

theorem reads_infoIpv6_address {gate : In6Addr} (hnh : api.nexthop = [gate])
    (hidx : api.ifindex = []) : Reads zreadNexthopsIpv6 (infoOctetsIpv6 api) (gate, 0) := by
  have hoct : infoOctetsIpv6 api = [1] ++ ([6] ++ gate.octets) := by
    simp [infoOctetsIpv6, nexthopOctets, hnh, hidx]
  rw [hoct]
  exact reads_single (reads_address _ gate)

theorem reads_infoIpv6_ifindex {i : UInt32} (hnh : api.nexthop = [])
    (hidx : api.ifindex = [i]) : Reads zreadNexthopsIpv6 (infoOctetsIpv6 api) (unspecified, i) := by
  have hoct : infoOctetsIpv6 api = [1] ++ ([1] ++ beBytes 4 i.toNat) := by
    simp [infoOctetsIpv6, nexthopOctets, hnh, hidx]
  rw [hoct]
  exact reads_single ((reads_getc 1).bind ((reads_getl i).map fun i => (unspecified, i)))

theorem infoOctetsIpv6_length (h : api.nexthop.length + api.ifindex.length = 1) :
    (infoOctetsIpv6 api).length ≤ 4000 := by
  unfold infoOctetsIpv6
  rw [length_append, nexthopOctets_length 6 In6Addr.length_eq, length_singleton]
  omega

section
variable (cmd : UInt16) (p : Prefix .ip6) (api : ZapiRoute In6Addr)

/-- A route with one next hop is the one that is meant where zebra makes that next hop. -/
theorem delivered_single_iff (hflag : api.lists = true) (hone : api.nexthop.length + api.ifindex.length = 1)
    (hinfo : Reads zreadNexthopsIpv6 (infoOctetsIpv6 api) nexthop) :
    (∃ r, delivered (zapiIpv6Route cmd p api) (zreadIpv6Add routeInfo) = some r ∧ r.p.bits = p.bits ∧
      r.rib = api.rib routeInfo api.nexthopsIpv6) ↔ DistanceKept api ∧ [madeNexthop nexthop] = api.nexthopsIpv6 := by
  have hdlv := delivered_last routeInfo cmd p api hflag hinfo (infoOctetsIpv6_length hone)
  rw [← ribAddIpv6_eq_iff]
  constructor
  · rintro ⟨r, hr, -, hrib⟩
    rw [hdlv] at hr
    cases hr
    exact hrib
  · intro hrib
    exact ⟨_, hdlv, sentPrefix_bits p, hrib⟩

/-- Zebra is given the route that is meant where it has one next hop. -/
theorem delivered_ipv6_iff (routeInfo : UInt8 → UInt8) :
    (∃ r, delivered (zapiIpv6Route cmd p api) (zreadIpv6Add routeInfo) = some r ∧ r.p.bits = p.bits ∧
      r.rib = api.rib routeInfo api.nexthopsIpv6) ↔ api.lists = true ∧ SingleNexthop api ∧ DistanceKept api := by
  by_cases hone : api.lists = true ∧ api.nexthop.length + api.ifindex.length = 1
  · obtain ⟨hflag, hone⟩ := hone
    have hmeant : api.nexthopsIpv6 = api.nexthop.map .ipv6 ++ api.ifindex.map .ifindex := if_pos hflag
    rcases hnh : api.nexthop with _ | ⟨gate, _ | _⟩
    · obtain ⟨i, hidx⟩ := length_eq_one_iff.1 (by simpa [hnh] using hone)
      rw [delivered_single_iff cmd p api hflag hone (reads_infoIpv6_ifindex hnh hidx), hmeant, hnh, hidx]
      have hsingle : SingleNexthop api := .inr ⟨i, hnh, hidx⟩
      simp [madeNexthop, hflag, hsingle]
    · have hidx : api.ifindex = [] := by simpa [hnh] using hone
      rw [delivered_single_iff cmd p api hflag hone (reads_infoIpv6_address hnh hidx), hmeant, hnh, hidx]
      have hsingle : SingleNexthop api ↔ gate ≠ unspecified := by simp [SingleNexthop, hnh, hidx]
      by_cases hgate : gate = unspecified <;> simp [madeNexthop, hflag, hsingle, hgate]
    · rw [hnh, length_cons, length_cons] at hone
      omega
  · refine iff_of_false ?_ ?_
    · rintro ⟨r, hr, -, hrib⟩
      have hlength := delivered_returns (returns_zreadIpv6Add routeInfo) r hr
      rw [hrib, rib, nexthopsIpv6] at hlength
      dsimp only at hlength
      split at hlength
      · rename_i hflag
        rw [length_append, length_map, length_map] at hlength
        exact hone ⟨hflag, hlength⟩
      · cases hlength
    · rintro ⟨hflag, ⟨gate, -, hnh, hidx⟩ | ⟨i, hnh, hidx⟩, -⟩
      · exact hone ⟨hflag, by rw [hnh, hidx]; rfl⟩
      · exact hone ⟨hflag, by rw [hnh, hidx]; rfl⟩

end

end Ipv6

/-- Zebra is given the route that a daemon means: of IPv4, where a route to a black hole has no other next hops; of
IPv6, where the route has one next hop, and not a distance of its own within an AS. -/
theorem zapiRoute_delivered (routeInfo : UInt8 → UInt8) (cmd : UInt16) : (∀ (p : Prefix .ip) (api : ZapiRoute UInt32),
      (∃ r, delivered (zapiIpv4Route cmd p api) (zreadIpv4Add routeInfo) = some r ∧ r.p.bits = p.bits ∧
        r.rib = api.rib routeInfo api.nexthopsIpv4) ↔
      (checkFlag api.message zapiMessageNexthop = true → checkFlag api.flags zebraFlagBlackhole = true →
        api.nexthop = [] ∧ api.ifindex = [])) ∧ ∀ (p : Prefix .ip6) (api : ZapiRoute In6Addr),
      (∃ r, delivered (zapiIpv6Route cmd p api) (zreadIpv6Add routeInfo) = some r ∧ r.p.bits = p.bits ∧
        r.rib = api.rib routeInfo api.nexthopsIpv6) ↔
      checkFlag api.message zapiMessageNexthop = true ∧ SingleNexthop api ∧ DistanceKept api :=
  ⟨fun p api => delivered_ipv4_iff cmd p api routeInfo, fun p api => delivered_ipv6_iff cmd p api routeInfo⟩

/-- `::n`. -/
def lowAddr (n : UInt8) : In6Addr := ⟨replicate 15 0 ++ [n], rfl⟩

theorem two_le : [lowAddr 1, lowAddr 2].length + ([] : List UInt32).length ≤ 255 := by decide

/-- A route of OSPFv3 with two next hops. -/
def twoNexthops : ZapiRoute In6Addr where
  type := 7
  flags := 0
  message := zapiMessageNexthop
  safi := 1
  nexthop := [lowAddr 1, lowAddr 2]
  ifindex := []
  distance := 0
  metric := 0
  count_le := two_le

/-- `::/0`. -/
def defaultIp6 : Prefix .ip6 := ⟨0, replicate 16 0, length_replicate, Nat.zero_le _⟩

theorem reads_twoNexthops : Reads zreadNexthopsIpv6 (infoOctetsIpv6 twoNexthops) (lowAddr 2, 0) := by
  have hoct : infoOctetsIpv6 twoNexthops =
      [2] ++ (([6] ++ (lowAddr 1).octets) ++ (([6] ++ (lowAddr 2).octets) ++ [])) := rfl
  rw [hoct]
  exact (reads_getc 2).bind ((reads_address _ (lowAddr 1)).bind ((reads_address _ (lowAddr 2)).bind (reads_pure _)))

/-- Of two next hops, zebra gets the last one. -/
theorem zapiRoute_delivered_two :
    (delivered (zapiIpv6Route 9 defaultIp6 twoNexthops) (zreadIpv6Add fun _ => 110)).map (·.rib.nexthops) =
      some [.ipv6 (lowAddr 2)] ∧ twoNexthops.nexthopsIpv6 = [.ipv6 (lowAddr 1), .ipv6 (lowAddr 2)] := by
  refine ⟨?_, by decide⟩
  rw [delivered_last (fun _ => 110) 9 defaultIp6 twoNexthops rfl reads_twoNexthops (by decide), map_some]
  decide

end Tarpan.Zebra
