/-
The routes of an UPDATE of IPv4 unicast (`bgp_nlri_parse` in bgp_route.c). The loop of the sanity check and that of the
parser walk the same encoding, but the parser returns at a prefix of class D and where `bgp_update` does, and
`bgp_update_receive` does not look at its result.
-/
import Tarpan.Bgpd.Packet.Multiprotocol

namespace Tarpan.Bgpd

open Lib List RouteCall

/-! ## Calls that are made -/

section Calls
variable {refused : List RouteCall → RouteCall → Bool}

/-- `bgp_update` refuses no call but the last. -/
def Uninterrupted (refused : List RouteCall → RouteCall → Bool) (calls todo : List RouteCall) : Prop :=
  ∀ pre call post, todo = pre ++ call :: post → refused (calls ++ pre) call = true → post = []

theorem callsMade_prefix (refused : List RouteCall → RouteCall → Bool) (calls : List RouteCall) :
    ∀ todo, ∃ made, made <+: todo ∧ callsMade refused calls todo = calls ++ made
  | [] => ⟨[], prefix_rfl, by rw [callsMade, append_nil]⟩
  | call :: todo => by
    rw [callsMade]
    split
    · exact ⟨[call], prefix_append [call] todo, rfl⟩
    · obtain ⟨made, hpre, h⟩ := callsMade_prefix refused (calls ++ [call]) todo
      exact ⟨call :: made, cons_prefix_cons.2 ⟨rfl, hpre⟩, by rw [h, append_assoc, cons_append, nil_append]⟩

theorem callsMade_all_iff : ∀ {todo calls : List RouteCall}, (∀ call ∈ todo, call.attr.isSome = true) →
    (callsMade refused calls todo = calls ++ todo ↔ Uninterrupted refused calls todo)
  | [], calls, _ => by simp [callsMade, Uninterrupted]
  | call :: todo, calls, hattr => by
    have hsome := hattr call mem_cons_self
    rw [callsMade]
    by_cases h : refused calls call = true
    · rw [if_pos ⟨hsome, h⟩]
      constructor
      · intro heq pre c post hsp _
        obtain rfl : [] = todo := (cons.inj (append_cancel_left heq)).2
        cases pre with
        | nil => exact (cons.inj hsp).2.symm
        | cons => simp at hsp
      · intro hall
        rw [hall [] call todo rfl (by rwa [append_nil])]
    · rw [if_neg fun h' => h h'.2, append_cons calls call todo,
        callsMade_all_iff fun c hc => hattr c (mem_cons_of_mem call hc)]
      constructor
      · intro hall pre c post hsp href
        cases pre with
        | nil =>
          rw [append_nil, ← (cons.inj hsp).1] at href
          exact absurd href h
        | cons c' pre =>
          obtain ⟨rfl, hpost⟩ := cons.inj hsp
          exact hall pre c post hpost (by rwa [append_assoc])
      · intro hall pre c post hsp href
        exact hall (call :: pre) c post (by rw [hsp, cons_append]) (by rwa [append_assoc] at href)

end Calls

/-! ## Encoded prefixes -/

/-- The prefixes that a field encodes, each with its length and the octets that are there. -/
def encodedPrefixes : List UInt8 → List (UInt8 × List UInt8)
  | [] => []
  | prefixlen :: pnt => (prefixlen, pnt.take (psize prefixlen)) :: encodedPrefixes (pnt.drop (psize prefixlen))
termination_by octets => octets.length
decreasing_by simp only [length_drop, length_cons]; omega

/-- `IN_CLASSD`, the octets that are not there being 0. -/
def inClassd (p : UInt8 × List UInt8) : Bool := p.2.getD 0 0 &&& 0xf0 = 0xe0

/-- The call of `bgp_update` for a prefix. -/
def ipCall (attr : Attr) (p : UInt8 × List UInt8) : RouteCall where
  afi := .ip
  safi := .unicast
  prefixlen := p.1
  octets := p.2
  attr := some attr

variable (refused : List RouteCall → RouteCall → Bool) (attr : Attr)

/-- The parser stops at the first prefix of class D. -/
theorem bgpNlriParse_ip (nlri : List UInt8) (calls : List RouteCall) (hsane : nlriSane Afi.ip.code nlri = true) :
    bgpNlriParse refused (some attr) .ip .unicast calls nlri =
      callsMade refused calls (((encodedPrefixes nlri).takeWhile (!inClassd ·)).map (ipCall attr)) := by
  induction nlri using encodedPrefixes.induct generalizing calls with
  | case1 => simp [bgpNlriParse, encodedPrefixes, callsMade]
  | case2 prefixlen pnt ih =>
    rw [nlriSane] at hsane
    split at hsane
    · cases hsane
    split at hsane
    · cases hsane
    rename_i hbits hroom
    have hin : ¬ (prefixlen.toNat > 8 * Afi.ip.octets ∨ pnt.length < psize prefixlen) := by
      rintro (h | h)
      · exact hbits (.inl ⟨rfl, UInt8.lt_iff_toNat_lt.2 h⟩)
      · exact hroom h
    have hip6 : ¬ (Afi.ip = .ip6 ∧ Safi.unicast = .unicast ∧ linkLocal (pnt.take (psize prefixlen)) = true) :=
      fun h => Afi.noConfusion h.1
    rw [bgpNlriParse, encodedPrefixes]
    dsimp only
    rw [if_neg hin, if_neg hip6, takeWhile_cons]
    by_cases hclass : inClassd (prefixlen, pnt.take (psize prefixlen)) = true
    · rw [if_pos ⟨rfl, rfl, of_decide_eq_true hclass⟩, if_neg (by simp [hclass])]
      rfl
    have hkeep : (!inClassd (prefixlen, pnt.take (psize prefixlen))) = true := by simp [hclass]
    rw [if_neg fun h => hclass (decide_eq_true h.2.2), if_pos hkeep, map_cons, callsMade, ih _ hsane]
    rfl

/-- The octets of a prefix that are written. -/
def encodedPrefix (p : Prefix .ip) : UInt8 × List UInt8 := (p.prefixlen, p.octets.take (psize p.prefixlen))

theorem encodedPrefixes_wire : ∀ ps : List (Prefix .ip), encodedPrefixes (ps.flatMap Prefix.wire) = ps.map encodedPrefix
  | [] => by rw [flatMap_nil, encodedPrefixes, map_nil]
  | p :: ps => by
    have hlen := Prefix.take_length p
    rw [flatMap_cons, Prefix.wire, cons_append, encodedPrefixes, take_left' hlen, drop_left' hlen,
      encodedPrefixes_wire ps]
    rfl

/-- The `struct prefix` that `bgp_update` is given: it is cleared before the octets are copied in. -/
def RouteCall.handed (call : RouteCall) : UInt8 × List UInt8 :=
  (call.prefixlen, call.octets ++ replicate (call.afi.octets - call.octets.length) 0)

/-- The octets behind those that are written are 0. -/
def Padded (p : Prefix .ip) : Prop :=
  p.octets.drop (psize p.prefixlen) = replicate (Afi.ip.octets - psize p.prefixlen) 0

theorem handed_eq_iff (p : Prefix .ip) :
    (ipCall attr (encodedPrefix p)).handed = (p.prefixlen, p.octets) ↔ Padded p := by
  rw [handed, ipCall, encodedPrefix, Prefix.take_length, Prod.mk.injEq, and_iff_right rfl]
  conv => lhs; rhs; rw [← take_append_drop (psize p.prefixlen) p.octets]
  rw [append_right_inj, eq_comm, Padded]

theorem ipCall_isSome {l : List (UInt8 × List UInt8)} : ∀ call ∈ l.map (ipCall attr), call.attr.isSome = true := by
  intro call hcall
  obtain ⟨p, -, rfl⟩ := mem_map.1 hcall
  rfl

/-- What is called for a list of prefixes against what should be. -/
theorem callsMade_filter_iff (l : List (UInt8 × List UInt8)) (calls : List RouteCall) :
    callsMade refused calls ((l.takeWhile (!inClassd ·)).map (ipCall attr)) =
        calls ++ (l.filter (!inClassd ·)).map (ipCall attr) ↔
      (∀ p ∈ l.dropWhile (!inClassd ·), inClassd p = true) ∧
        Uninterrupted refused calls ((l.takeWhile (!inClassd ·)).map (ipCall attr)) := by
  have hfil : l.filter (!inClassd ·) =
      l.takeWhile (!inClassd ·) ++ (l.dropWhile (!inClassd ·)).filter (!inClassd ·) := by
    conv => lhs; rw [← takeWhile_append_dropWhile (p := (!inClassd ·)) (l := l), filter_append]
    rw [filter_eq_self.2 fun p => mem_takeWhile_imp (p := (!inClassd ·))]
  have hrest : (l.dropWhile (!inClassd ·)).filter (!inClassd ·) = [] ↔
      ∀ p ∈ l.dropWhile (!inClassd ·), inClassd p = true := by
    simp
  rw [hfil, map_append, ← hrest, ← callsMade_all_iff (ipCall_isSome attr)]
  obtain ⟨made, hpre, hmade⟩ := callsMade_prefix refused calls ((l.takeWhile (!inClassd ·)).map (ipCall attr))
  constructor
  · intro h
    rw [hmade] at h
    -- what is made is no longer than the part before the stop
    have hlen := congrArg length (append_cancel_left h)
    have hle := hpre.length_le
    rw [length_append] at hlen
    have hnil : (l.dropWhile (!inClassd ·)).filter (!inClassd ·) = [] :=
      map_eq_nil_iff.1 (length_eq_zero_iff.1 (show (map (ipCall attr) _).length = 0 by omega))
    refine ⟨hnil, ?_⟩
    rw [hmade, h, hnil, map_nil, append_nil]
  · rintro ⟨hnil, hall⟩
    rw [hall, hnil, map_nil, append_nil]

theorem callsMade_handed_iff (ps : List (Prefix .ip)) (calls : List RouteCall) :
    (callsMade refused calls (((ps.map encodedPrefix).takeWhile (!inClassd ·)).map (ipCall attr))).map
        handed = calls.map handed ++ ps.map (fun p => (p.prefixlen, p.octets)) ↔
      (∀ p ∈ ps, inClassd (encodedPrefix p) = false ∧ Padded p) ∧
        Uninterrupted refused calls ((ps.map encodedPrefix).map (ipCall attr)) := by
  have hpadded : ((ps.map encodedPrefix).map (ipCall attr)).map handed =
      ps.map (fun p => (p.prefixlen, p.octets)) ↔ ∀ p ∈ ps, Padded p := by
    rw [map_map, map_map, map_inj_left]
    exact forall₂_congr fun p _ => handed_eq_iff attr p
  rw [← callsMade_all_iff (ipCall_isSome attr)]
  constructor
  · intro h
    obtain ⟨made, hpre, hmade⟩ :=
      callsMade_prefix refused calls (((ps.map encodedPrefix).takeWhile (!inClassd ·)).map (ipCall attr))
    rw [hmade, map_append] at h
    have hback := append_cancel_left h
    -- as many calls as prefixes: the parser did not stop
    have hlen : made.length = ps.length := by simpa using congrArg length hback
    have hle := hpre.length_le
    have htake := takeWhile_prefix (l := ps.map encodedPrefix) (!inClassd ·)
    have hle' := htake.length_le
    rw [length_map] at hle hle'
    have hall := htake.eq_of_length (by rw [length_map]; omega)
    rw [hall] at hpre hmade
    obtain rfl := hpre.eq_of_length (by rw [length_map, length_map]; omega)
    refine ⟨fun p hp => ⟨?_, hpadded.1 hback p hp⟩, hmade⟩
    simpa using takeWhile_eq_self_iff.1 hall (encodedPrefix p) (mem_map_of_mem hp)
  · rintro ⟨hps, hmade⟩
    have hall : (ps.map encodedPrefix).takeWhile (!inClassd ·) = ps.map encodedPrefix := by
      refine takeWhile_eq_self_iff.2 fun e he => ?_
      obtain ⟨p, hp, rfl⟩ := mem_map.1 he
      rw [(hps p hp).1, Bool.not_false]
    rw [hall, hmade, map_append, hpadded.2 fun p hp => (hps p hp).2]

/-- Every prefix that is not of class D is processed, and a list of prefixes comes back as it was written, where no
prefix follows one that makes the parser return. -/
theorem bgpNlriParse_processes_iff (calls : List RouteCall) : (∀ nlri, nlriSane Afi.ip.code nlri = true →
      (bgpNlriParse refused (some attr) .ip .unicast calls nlri =
          calls ++ ((encodedPrefixes nlri).filter (!inClassd ·)).map (ipCall attr) ↔
        (∀ p ∈ (encodedPrefixes nlri).dropWhile (!inClassd ·), inClassd p = true) ∧
          Uninterrupted refused calls (((encodedPrefixes nlri).takeWhile (!inClassd ·)).map (ipCall attr)))) ∧
    ∀ (ps : List (Prefix .ip)) (s s' : Stream), ps.foldlM streamPutPrefix s = some s' →
      ((bgpNlriParse refused (some attr) .ip .unicast calls (s'.data.drop s.endp)).map handed =
          calls.map handed ++ ps.map (fun p => (p.prefixlen, p.octets)) ↔
        (∀ p ∈ ps, inClassd (encodedPrefix p) = false ∧ Padded p) ∧
          Uninterrupted refused calls ((ps.map encodedPrefix).map (ipCall attr))) := by
  constructor
  · intro nlri hsane
    rw [bgpNlriParse_ip refused attr nlri calls hsane]
    exact callsMade_filter_iff refused attr (encodedPrefixes nlri) calls
  · intro ps s s' hput
    have hdata : s'.data.drop s.endp = ps.flatMap Prefix.wire := by
      have happ := (foldlM_streamAppend Prefix.wire s ps).symm.trans hput
      rw [(streamAppend_eq_some.1 happ).data, Stream.endp, drop_left]
    have hsane : nlriSane Afi.ip.code (ps.flatMap Prefix.wire) = true := nlriSane_flatMap id ps
    rw [hdata, bgpNlriParse_ip refused attr _ calls hsane, encodedPrefixes_wire]
    exact callsMade_handed_iff refused attr ps calls

/-- 10.0.0.0/8 before 224.0.0.0/8, and 10.0.0.0/8 written to an empty stream. -/
theorem bgpNlriParse_processes_slash8 :
    bgpNlriParse (fun _ _ => false) (some {}) .ip .unicast [] [8, 10, 8, 224] = [ipCall {} (8, [10])] ∧
      (bgpNlriParse (fun _ _ => false) (some {}) .ip .unicast [] ([8, 10].drop 0)).map handed =
        [(8, [10, 0, 0, 0])] := by
  have h := bgpNlriParse_processes_iff (fun _ _ => false) {} []
  have hencoded : encodedPrefixes [8, 10, 8, 224] = [(8, [10]), (8, [224])] := by decide +kernel
  constructor
  · have hmade := h.1 [8, 10, 8, 224] (by decide +kernel)
    rw [hencoded] at hmade
    exact hmade.2 ⟨by decide +kernel, fun _ _ _ _ href => nomatch href⟩
  · have hback := h.2 [ip4 10 0 0 0 8 (by decide)] (streamNew 2) (.full [8, 10]) (by decide +kernel)
    refine hback.2 ⟨fun p hp => ?_, fun _ _ _ _ href => nomatch href⟩
    obtain rfl := mem_singleton.1 hp
    exact ⟨by decide +kernel, rfl⟩

/-- 10.0.0.0/8 after 224.0.0.0/8 passes the check and is not processed. -/
theorem bgpNlriParse_stops_at_classd :
    nlriSane Afi.ip.code [8, 224, 8, 10] = true ∧ encodedPrefixes [8, 224, 8, 10] = [(8, [224]), (8, [10])] ∧
      bgpNlriParse (fun _ _ => false) (some {}) .ip .unicast [] [8, 224, 8, 10] = [] := by
  decide +kernel

end Tarpan.Bgpd
