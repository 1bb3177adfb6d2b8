/-
The receipt of an UPDATE (`bgp_update_receive` in bgp_packet.c, `bgp_nlri_parse` in bgp_route.c,
`bgp_nlri_parse_vpnv4` in bgp_mplsvpn.c): its fields are checked, the attributes are parsed, and the
routes of each configured family are handed to `bgp_update` and `bgp_withdraw`. These calls are
recorded here in their order; counters and timers of the peer are left out.
-/
import Tarpan.Bgpd.Attr.Parse

namespace Tarpan.Bgpd

open Base Lib AttrParser List

/-! ## Routes -/

/-- A call of `bgp_update`, or of `bgp_withdraw` where there are no attributes. -/
structure RouteCall where
  afi : Afi
  safi : Safi
  prefixlen : UInt8
  octets : List UInt8
  attr : Option Attr
  prd : Option (List UInt8) := none
  tag : Option (List UInt8) := none
  deriving DecidableEq

section Nlri

/- Whether `bgp_update` returns -1 for a call, after the calls before it. -/
variable (refused : List RouteCall → RouteCall → Bool) (attr : Option Attr)

/-- `bgp_nlri_parse`, after the calls that were made before. Its own result is not used. -/
def bgpNlriParse (afi : Afi) (safi : Safi) (calls : List RouteCall) : List UInt8 → List RouteCall
  | [] => calls
  | prefixlen :: pnt =>
    let octets := pnt.take (psize prefixlen)
    if prefixlen.toNat > 8 * afi.octets ∨ pnt.length < psize prefixlen then calls
    else if afi = .ip ∧ safi = .unicast ∧ octets.getD 0 0 &&& 0xf0 = 0xe0 then calls
    else if afi = .ip6 ∧ safi = .unicast ∧ linkLocal octets then
      bgpNlriParse afi safi calls (pnt.drop (psize prefixlen))
    else
      let call : RouteCall := { afi, safi, prefixlen, octets, attr }
      if attr.isSome ∧ refused calls call then calls ++ [call]
      else bgpNlriParse afi safi (calls ++ [call]) (pnt.drop (psize prefixlen))
termination_by octets => octets.length
decreasing_by all_goals simp only [length_drop, length_cons]; omega

/-- `bgp_nlri_parse_vpnv4`. The route distinguisher is read before the bounds are checked, and a
prefix of more than 128 bits is written past `p`. -/
def bgpNlriParseVpnv4 (calls : List RouteCall) : List UInt8 → Option (List RouteCall)
  | [] => some calls
  | prefixlen :: pnt =>
    let rdType := beVal ((pnt.drop 3).take 2)
    if prefixlen < 88 then some calls
    else if 5 ≤ pnt.length ∧ rdType ≠ 0 ∧ rdType ≠ 1 then some calls
    else if psize prefixlen - 11 > 16 then none
    else if pnt.length < psize prefixlen then some calls
    else
      bgpNlriParseVpnv4 (calls ++ [{
        afi := .ip, safi := .mplsVpn, prefixlen := prefixlen - 88, octets := (pnt.drop 11).take (psize prefixlen - 11),
        attr, prd := some ((pnt.drop 3).take 8), tag := some (pnt.take 3) }]) (pnt.drop (psize prefixlen))
termination_by octets => octets.length
decreasing_by simp only [length_drop, length_cons]; omega

end Nlri

/-! ## Fields -/

section Update
variable {σ : Type} (env : ParserEnv σ)

/-- The fields do not fit the message. -/
def updateMalformed {α : Type} : AttrParser σ (Option α) := do
  notify .malAttr []
  return none

/-- The withdrawn routes of an UPDATE that ends at `endp`; nothing where `bgp_update_receive` returns -1. -/
def withdrawnParse (endp : Nat) : AttrParser σ (Option BgpNlri) := do
  if (← getp) + 2 > endp then updateMalformed
  else
    let withdrawLen := (← getw).toNat
    if (← getp) + withdrawLen > endp then updateMalformed
    else if withdrawLen = 0 then return some {}
    else
      let nlri ← peek withdrawLen
      if !(← bgpNlriSanityCheck Afi.ip.code nlri) then return none
      else
        forwardGetp withdrawLen
        return some ⟨Afi.ip.code, Safi.unicast.code, nlri⟩

/-- The path attributes: their length and the result of `bgp_attr_parse`. -/
def attributesParse (endp : Nat) : AttrParser σ (Option (Nat × AttrParseRet)) := do
  if (← getp) + 2 > endp then updateMalformed
  else
    let attributeLen := (← getw).toNat
    if (← getp) + attributeLen > endp then updateMalformed
    else if attributeLen = 0 then return some (0, .proceed)
    else
      let ret ← bgpAttrParse env attributeLen
      return some (attributeLen, ret)

def updateNlriParse (endp : Nat) : AttrParser σ (Option BgpNlri) := do
  let updateLen := endp - (← getp)
  if updateLen = 0 then return some {}
  else
    let nlri ← peek updateLen
    if !(← bgpNlriSanityCheck Afi.ip.code nlri) then return none
    else
      forwardGetp updateLen
      return some ⟨Afi.ip.code, Safi.unicast.code, nlri⟩

/-- `bgp_attr_unintern_sub`, of which only the table of Tarpan attributes is kept here. -/
def bgpAttrUninternSub : AttrParser σ Unit := do
  match (← get).attr.tarpan with
  | none => return ()
  | some tarpan => onSpeaker fun sp => (tarpanUnintern sp.store tarpan).map fun store => ((), { sp with store })

/-! ## Families -/

/-- What an UPDATE leads to: the result and `attr_parse_ret`, the calls, the families that are marked
`PEER_STATUS_EOR_RECEIVED`, and those of which `bgp_clear_stale_route` is called. -/
structure UpdateResult where
  ret : Int
  attrParseRet : AttrParseRet := .proceed
  calls : List RouteCall := []
  eorReceived : List (Afi × Safi) := []
  staleCleared : List (Afi × Safi) := []

section
variable (refused : List RouteCall → RouteCall → Bool)

/-- The routes of one multiprotocol attribute, where it is of the family `afi` and `safi`. -/
def mpRoutes (afi : Afi) (safi : Safi) (attr : Option Attr) (packet : BgpNlri) (calls : List RouteCall) :
    Option (List RouteCall) :=
  if packet.nlri ≠ [] ∧ packet.afi = afi.code
      ∧ packet.safi = (if safi = .mplsVpn then safiMplsLabeledVpn else safi.code) then
    if safi = .mplsVpn then bgpNlriParseVpnv4 attr calls packet.nlri
    else some (bgpNlriParse refused attr afi safi calls packet.nlri)
  else some calls

/-- The block of `bgp_update_receive` for one family: `isEor` says that the UPDATE is its End-of-RIB,
which is marked where `marks` is set and clears stale routes where `clears` is. -/
def familyUpdate (peer : Peer) (afi : Afi) (safi : Safi) (isEor marks clears : Bool)
    (routes : List RouteCall → Option (List RouteCall)) (res : UpdateResult) : Option UpdateResult :=
  if peer.afc afi safi then do
    let calls ← routes res.calls
    return { res with
      calls
      eorReceived := if isEor && marks then res.eorReceived ++ [(afi, safi)] else res.eorReceived
      staleCleared := if isEor && clears && peer.nsf afi safi then res.staleCleared ++ [(afi, safi)]
        else res.staleCleared }
  else some res

def updateFamilies (attr : Option Attr) (withdraw update mpUpdate mpWithdraw : BgpNlri) (attributeLen : Nat)
    (res : UpdateResult) :
    Option UpdateResult := do
  let mpBoth (afi : Afi) (safi : Safi) (calls : List RouteCall) : Option (List RouteCall) := do
    let calls ← mpRoutes refused afi safi attr mpUpdate calls
    mpRoutes refused afi safi none mpWithdraw calls
  let mpEor (afi : Afi) (safi : UInt8) : Bool :=
    withdraw.nlri = [] ∧ mpWithdraw.afi = afi.code ∧ mpWithdraw.safi = safi ∧ mpWithdraw.nlri = []
  let res ← familyUpdate env.peer .ip .unicast (attributeLen = 0 ∧ withdraw.nlri = []) true true (fun calls => do
    let calls := bgpNlriParse refused none .ip .unicast calls withdraw.nlri
    let calls := bgpNlriParse refused attr .ip .unicast calls update.nlri
    mpBoth .ip .unicast calls) res
  let res ← familyUpdate env.peer .ip .multicast (mpEor .ip Safi.multicast.code) true true (mpBoth .ip .multicast) res
  let res ← familyUpdate env.peer .ip6 .unicast (mpEor .ip6 Safi.unicast.code) true true (mpBoth .ip6 .unicast) res
  let res ← familyUpdate env.peer .ip6 .multicast (mpEor .ip6 Safi.multicast.code) false true
    (mpBoth .ip6 .multicast) res
  familyUpdate env.peer .ip .mplsVpn (mpEor .ip safiMplsLabeledVpn) false false (mpBoth .ip .mplsVpn) res

/-! ## The whole UPDATE -/

/-- The part of `bgp_update_receive` after the attributes. -/
def bgpUpdateRoutes (endp : Nat) (withdraw : BgpNlri) (attributeLen : Nat) (attrParseRet : AttrParseRet) :
    AttrParser σ UpdateResult := do
  match ← updateNlriParse endp with
  | none =>
    bgpAttrUninternSub
    return { ret := -1, attrParseRet }
  | some update =>
    let st ← get
    let attr := if attrParseRet = .withdraw then none else some st.attr
    let res ← (updateFamilies env refused attr withdraw update st.mpUpdate st.mpWithdraw attributeLen
      { ret := 0, attrParseRet } : Option UpdateResult)
    bgpAttrUninternSub
    return res

/-- `bgp_update_receive` on the `size` octets after the header. -/
def bgpUpdateReceive (size : Nat) : AttrParser σ UpdateResult := do
  if env.peer.status ≠ .established then
    modify fun st => { st with notified := st.notified ++ [.fsmErr] }
    return { ret := -1 }
  else
    let endp := (← getp) + size
    match ← withdrawnParse endp with
    | none => return { ret := -1 }
    | some withdraw =>
      match ← attributesParse env endp with
      | none => return { ret := -1 }
      | some (attributeLen, attrParseRet) =>
        if attrParseRet = .error then
          bgpAttrUninternSub
          return { ret := -1, attrParseRet }
        else bgpUpdateRoutes env refused endp withdraw attributeLen attrParseRet

end

end Update

end Tarpan.Bgpd
