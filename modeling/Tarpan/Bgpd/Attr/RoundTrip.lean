/-
The round trip of path attributes to an internal peer with four-octet AS numbers. The writer and the parser meet at
the list of attributes as they go out: `bgp_packet_attribute` writes them one after the other, and the loop of
`bgp_attr_parse` takes them one after the other.
-/
import Mathlib.Algebra.Order.BigOperators.Group.List
import Tarpan.Bgpd.Attr.Written

namespace Tarpan.Bgpd

open Base Lib AttrParser List Option Function Bool Attr

/-! ## The form of what is written -/

section Form

theorem attrTlvs_flatMap (codec : TarpanCodec) (sent : BgpAttr → Option AttrValue) (l : List BgpAttr) :
    (attrTlvs codec sent l).flatMap Tlv.wire =
      l.flatMap fun a => ((sent a).map fun v => (attrTlv codec a v).wire).getD [] := by
  induction l with
  | nil => rfl
  | cons a l ih =>
    rw [flatMap_cons, ← ih]
    cases h : sent a <;> simp [attrTlvs, h]

theorem mem_attrTlvs {codec : TarpanCodec} {sent : BgpAttr → Option AttrValue} {l : List BgpAttr} {t : Tlv} :
    t ∈ attrTlvs codec sent l ↔ ∃ a ∈ l, ∃ v, sent a = some v ∧ attrTlv codec a v = t := by
  simp [attrTlvs]

variable {σ : Type} {env : PacketEnv σ} {sp : Speaker σ} {attr : Attr} {p : Aspath} {a : BgpAttr} {v : AttrValue}

theorem sentValue_ne_path (ha : a ≠ .asPath) (q : Aspath) : sentValue env sp attr a ≠ some (.path q) := by
  intro h
  cases a <;> simp [sentValue, value, field, bind_eq_some_iff] at ha h

theorem writtenOption_of_ne (ha : a ≠ .asPath) : writtenOption env.codec a (sentValue env sp attr a) =
      ((sentValue env sp attr a).map fun v => (attrTlv env.codec a v).wire).getD [] := by
  cases h : sentValue env sp attr a with
  | none => rfl
  | some v =>
    cases v with
    | path q => exact absurd h (sentValue_ne_path ha q)
    | octet | number | mark | aggregator | words | ecommunity | message => rfl

theorem sentValue_asPath (hattr : Sendable sp.store.content attr) (hp : attr.aspath = some p) :
    sentValue env sp attr .asPath = some (.path p) := by
  simp [sentValue, value, hattr.asPath, field, hp]

theorem octets_length_le (ha : a ∈ sentOrder) (hv : sentValue env sp attr a = some v) :
    (v.octets env.codec).length ≤ (writtenOctets env sp attr).length := by
  have hmem : (writtenOption env.codec a (sentValue env sp attr a)).length ≤ (writtenOctets env sp attr).length := by
    rw [writtenOctets, length_flatMap]
    exact single_le_sum (fun _ _ => Nat.zero_le _) _ (mem_map_of_mem ha)
  refine le_trans ?_ hmem
  rw [hv]
  cases v with
  | path q => simp [writtenOption, writtenAttr]; omega
  | octet | number | mark | aggregator | words | ecommunity | message =>
    simp [writtenOption, writtenAttr, attrTlv]

/-- The count of an AS path in a message is right where its segments are split at most once. -/
theorem beBytes_putCount_iff (hp : Normalised p) (hfits : (pathBytes true p).length ≤ 4096) :
    beBytes 2 (putCount true p) = beBytes 2 (pathBytes true p).length ↔ ∀ seg ∈ p, seg.as.length ≤ 510 := by
  have hne : ∀ seg ∈ p, seg.as ≠ [] := fun seg hseg => (hp.segs seg hseg).nonempty
  have hmax : ∀ seg ∈ p, seg.as.length ≤ 1275 := by
    intro seg hseg
    have hroom : asHeaderSize * ((seg.as.length + 254) / 255) + seg.as.length * 4 ≤ pathRoom true p :=
      single_le_sum (fun _ _ => Nat.zero_le _) _ (mem_map_of_mem hseg)
    rw [← pathBytes_length true hne] at hroom
    omega
  have hcnt := putCount_le true hne hmax
  rw [← (putCount_eq_iff true hne).2]
  constructor
  · intro h
    have hval := congrArg beVal h
    rw [beVal_beBytes_mod, beVal_beBytes_mod] at hval
    omega
  · intro h
    rw [h]

/-- What is written are the attributes of the set where no segment of the AS path has more than 510 numbers. -/
theorem writtenOctets_eq_iff (hattr : Sendable sp.store.content attr) (hp : attr.aspath = some p) (hnorm : Normalised p)
    (hfits : (writtenOctets env sp attr).length ≤ 4096) :
    writtenOctets env sp attr = (sentTlvs env sp attr).flatMap Tlv.wire ↔ ∀ seg ∈ p, seg.as.length ≤ 510 := by
  have hpath := @sentValue_asPath σ env sp attr p hattr hp
  have hlen : (pathBytes true p).length ≤ 4096 := (octets_length_le (by decide) hpath).trans hfits
  have hrest : ∀ a ∈ sentOrder.tail.tail, writtenOption env.codec a (sentValue env sp attr a) =
      ((sentValue env sp attr a).map fun v => (attrTlv env.codec a v).wire).getD [] := by
    intro a ha
    refine writtenOption_of_ne ?_
    rintro rfl
    exact absurd ha (by decide)
  rw [← beBytes_putCount_iff hnorm hlen, sentTlvs, attrTlvs_flatMap, writtenOctets]
  rw [show sentOrder = .origin :: .asPath :: sentOrder.tail.tail from rfl, flatMap_cons, flatMap_cons,
    flatMap_cons, flatMap_cons, flatMap_congr hrest, writtenOption_of_ne (by decide), append_cancel_left_eq,
    append_cancel_right_eq, hpath]
  have hext : (attrTlv env.codec .asPath (.path p)).extlen = true :=
    (by decide : checkFlag (bgpAttrFlagTrans ||| bgpAttrFlagExtlen) bgpAttrFlagExtlen = true)
  change (attrTlv env.codec .asPath (.path p)).flags :: BgpAttr.asPath.code :: (beBytes 2 (putCount true p) ++
    pathBytes true p) =
    (attrTlv env.codec .asPath (.path p)).wire ↔ _
  rw [Tlv.wire_long hext]
  simp [attrTlv, AttrValue.octets]

theorem sentFlags_high (a : BgpAttr) (n : Nat) : 0xf0 &&& sentFlags a n = sentFlags a n := by
  cases a <;> unfold sentFlags <;> dsimp only <;> first | decide | (split <;> decide)

theorem sentValue_short
    (ha : a ∈ [BgpAttr.origin, .nextHop, .multiExitDisc, .localPref, .atomicAggregate, .aggregator, .originatorId])
    (hv : sentValue env sp attr a = some v) : (v.octets env.codec).length ≤ 8 := by
  cases a <;> first
    | exact absurd ha (by decide)
    | (simp [sentValue, value, field] at hv
       first
         | (obtain ⟨-, rfl⟩ := hv; simp [AttrValue.octets])
         | (obtain ⟨-, -, -, rfl⟩ := hv; simp [AttrValue.octets]))

/-- They are well formed where the CLUSTER_LIST of a reflected route fits its length octet. -/
theorem sentTlvs_wellFormed_iff (hfits : (writtenOctets env sp attr).length ≤ 4096) :
    (∀ t ∈ sentTlvs env sp attr, t.WellFormed) ↔
      (env.reflects = true → ((attr.extra.bind (·.cluster)).getD []).length ≤ 62) := by
  have hclu : (wordOctets (reflectedCluster env sp attr)).length =
      (((attr.extra.bind (·.cluster)).getD []).length + 1) * 4 := wordOctets_length _
  constructor
  · intro h hrefl
    have hwf := (h _ (mem_attrTlvs.2 ⟨.clusterList, by decide, _, if_pos hrefl, rfl⟩)).length
    have hext : (attrTlv env.codec .clusterList (.words (reflectedCluster env sp attr))).extlen = false :=
      (by decide : checkFlag bgpAttrFlagOptional bgpAttrFlagExtlen = false)
    rw [hext, if_neg Bool.false_ne_true] at hwf
    change (wordOctets (reflectedCluster env sp attr)).length < 256 at hwf
    omega
  · intro h t ht
    obtain ⟨a, ha, v, hv, rfl⟩ := mem_attrTlvs.1 ht
    have hle := (octets_length_le ha hv).trans hfits
    refine ⟨sentFlags_high a _, ?_⟩
    change (v.octets env.codec).length <
      if checkFlag (sentFlags a (v.octets env.codec).length) bgpAttrFlagExtlen then _ else _
    -- either the length is in two octets, or it is small
    rcases Nat.lt_or_ge (v.octets env.codec).length 256 with hsm | hlarge
    · split <;> omega
    rw [if_pos]
    · omega
    · have hshort := fun hmem => @sentValue_short σ env sp attr a v hmem hv
      cases a with
      | asPath | tarpan =>
        unfold sentFlags
        dsimp only
        decide
      | communities | extCommunities =>
        have hfl : ∀ a n, a = .communities ∨ a = .extCommunities → 256 ≤ n →
            sentFlags a n = bgpAttrFlagOptional ||| bgpAttrFlagTrans ||| bgpAttrFlagExtlen := by
          rintro a n (rfl | rfl) hn <;> exact if_pos hn
        rw [hfl _ _ (by simp) hlarge]
        decide
      | clusterList =>
        by_cases hrefl : env.reflects = true
        · rw [sentValue, if_pos hrefl] at hv
          cases hv
          have := h hrefl
          rw [AttrValue.octets] at hlarge
          omega
        · rw [sentValue, if_neg hrefl] at hv
          cases hv
      | origin | nextHop | multiExitDisc | localPref | atomicAggregate | aggregator | originatorId =>
        have := hshort (by decide)
        omega
      | mpReachNlri | mpUnreachNlri | as4Path | as4Aggregator | asPathlimit => exact absurd ha (by decide)

end Form

/-! ## The parser on what is written -/

section Receiver
variable {σ : Type} {env : ParserEnv σ} {sp : Speaker σ} {st : ParseState σ} {rest : List UInt8} {endp : Nat}

/-- What is promised of the receiver of a session with an internal peer: AS numbers have four octets, and
`peer_as_change` resets `change_local_as` for internal peers. -/
structure ParserEnv.Internal (env : ParserEnv σ) : Prop where
  sort : env.peer.sort = .ibgp
  as4 : env.peer.cap .as4Rcv = true
  changeLocalAs : env.peer.changeLocalAs = 0

theorem bgpAttrStep_reads {a : BgpAttr} {v w : AttrValue} (henv : env.Internal) (hreads : Reads env sp a v w)
    (hwf : (attrTlv env.codec a v).WellFormed) (hex : st.attr.extra.isSome) (hsp : a = .tarpan → st.speaker = sp)
    (hseen : st.seen a.code = false) (hunread : st.ibuf.unread = (attrTlv env.codec a v).wire ++ rest)
    (hendp : st.ibuf.getp + (attrTlv env.codec a v).wire.length ≤ endp) :
    ∃ st', bgpAttrStep env endp st = some (none, st') ∧
      st'.ibuf = st.ibuf.advance (attrTlv env.codec a v).wire.length ∧ st'.attr.extra.isSome ∧
      (a ≠ .tarpan → st'.speaker = st.speaker) ∧ st'.seen = update st.seen a.code true ∧
      st'.value = update st.value a (some w) := by
  obtain ⟨st', hhandle, htook⟩ := @Reads.took σ env sp a v w hreads henv.sort henv.as4
    (st.headed (attrTlv env.codec a v)) hex hsp rest (headed_unread hunread) st.ibuf.getp
  have hibuf : st'.ibuf = st.ibuf.advance (attrTlv env.codec a v).wire.length := by
    rw [htook.ibuf, ParseState.headed, advance_advance, Tlv.wire_length]
    rfl
  refine ⟨st', ?_, hibuf, htook.extra, htook.speaker, htook.seen, htook.value⟩
  refine bgpAttrStep_taken env hwf hseen hunread hendp (hreads.flags _) hhandle ?_
  rw [hibuf, advance_getp (le_readable hunread)]

/-- The attributes `l` of `sent` come next, and none of them has been met. -/
structure Awaits (env : ParserEnv σ) (sp : Speaker σ) (sent : BgpAttr → Option AttrValue) (endp : Nat)
    (rest : List UInt8) (l : List BgpAttr) (st : ParseState σ) : Prop where
  nodup : l.Nodup
  wellFormed : ∀ t ∈ attrTlvs env.codec sent l, t.WellFormed
  extra : st.attr.extra.isSome
  speaker : .tarpan ∈ l → st.speaker = sp
  seen : ∀ a ∈ l, st.seen a.code = false
  unread : st.ibuf.unread = (attrTlvs env.codec sent l).flatMap Tlv.wire ++ rest
  endp_le : st.ibuf.getp + ((attrTlvs env.codec sent l).flatMap Tlv.wire).length ≤ endp

variable {sent got : BgpAttr → Option AttrValue} {a : BgpAttr} {l : List BgpAttr} (codec : TarpanCodec) {v : AttrValue}

theorem attrTlvs_cons_none (h : sent a = none) :
    attrTlvs codec sent (a :: l) = attrTlvs codec sent l := by simp [attrTlvs, h]

theorem attrTlvs_cons_some (h : sent a = some v) :
    attrTlvs codec sent (a :: l) = attrTlv codec a v :: attrTlvs codec sent l := by simp [attrTlvs, h]

section
variable (h : Awaits env sp sent endp rest (a :: l) st)
include h

theorem Awaits.skip (hsent : sent a = none) : Awaits env sp sent endp rest l st where
  nodup := h.nodup.of_cons
  wellFormed := attrTlvs_cons_none env.codec hsent ▸ h.wellFormed
  extra := h.extra
  speaker hl := h.speaker (mem_cons_of_mem a hl)
  seen k hk := h.seen k (mem_cons_of_mem a hk)
  unread := attrTlvs_cons_none env.codec hsent ▸ h.unread
  endp_le := attrTlvs_cons_none env.codec hsent ▸ h.endp_le

theorem Awaits.head (hsent : sent a = some v) : (attrTlv env.codec a v).WellFormed ∧
      st.ibuf.unread = (attrTlv env.codec a v).wire ++ ((attrTlvs env.codec sent l).flatMap Tlv.wire ++ rest) ∧
      st.ibuf.getp + ((attrTlv env.codec a v).wire.length + ((attrTlvs env.codec sent l).flatMap Tlv.wire).length) ≤
        endp := by
  have htlvs := @attrTlvs_cons_some sent a l env.codec v hsent
  refine ⟨h.wellFormed _ (htlvs ▸ mem_cons_self), ?_, ?_⟩
  · rw [h.unread, htlvs, flatMap_cons, append_assoc]
  · rw [← length_append, ← flatMap_cons, ← htlvs]
    exact h.endp_le

theorem Awaits.take (henv : env.Internal) {w : AttrValue} (hsent : sent a = some v) (hread : Reads env sp a v w) :
    ∃ st', st.ibuf.getp < endp ∧ bgpAttrStep env endp st = some (none, st') ∧ Awaits env sp sent endp rest l st' ∧
      st'.ibuf = st.ibuf.advance (attrTlv env.codec a v).wire.length ∧
      st'.value = update st.value a (some w) := by
  obtain ⟨ha, hnd⟩ := nodup_cons.1 h.nodup
  obtain ⟨hwf, hunread, hendp⟩ := h.head hsent
  have hne : ∀ k ∈ l, k ≠ a := fun k hk hka => ha (hka ▸ hk)
  obtain ⟨st', hstep, hibuf, hex, hsp, hseen, hval⟩ := bgpAttrStep_reads henv hread hwf h.extra
    (fun hat => h.speaker (hat ▸ mem_cons_self)) (h.seen a mem_cons_self) hunread (by omega : _ ≤ endp)
  have hge := (attrTlv env.codec a v).wire_length_ge
  refine ⟨st', by omega, hstep, ⟨hnd, fun t ht => ?_, hex, fun hl => ?_, fun k hk => ?_, ?_, ?_⟩, hibuf, hval⟩
  · exact h.wellFormed t (attrTlvs_cons_some env.codec hsent ▸ mem_cons_of_mem _ ht)
  · rw [hsp (hne _ hl).symm]
    exact h.speaker (mem_cons_of_mem a hl)
  · rw [hseen, update_of_ne fun hcode => hne k hk (code_injective hcode)]
    exact h.seen k (mem_cons_of_mem a hk)
  · rw [hibuf, unread_advance, hunread, drop_left]
  · rw [hibuf, advance_getp (le_readable hunread)]
    omega

end

/-- The loop takes the attributes `l` before those of `l'`, where all of them are accepted. -/
theorem Awaits.steps (henv : env.Internal) {l' : List BgpAttr} : ∀ {l : List BgpAttr} {st : ParseState σ},
    Awaits env sp sent endp rest (l ++ l') st → (∀ a ∈ l, Option.Rel (Reads env sp a) (sent a) (got a)) →
    (∀ a ∈ l, st.value a = none) →
    ∃ st', AttrSteps env endp (attrTlvs env.codec sent l).length st st' ∧ Awaits env sp sent endp rest l' st' ∧
      st'.ibuf = st.ibuf.advance ((attrTlvs env.codec sent l).flatMap Tlv.wire).length ∧
      ∀ a, st'.value a = if a ∈ l then got a else st.value a
  | [], st => fun h _ _ => ⟨st, .refl st, h, (advance_zero _).symm, fun a => (if_neg (by simp)).symm⟩
  | a :: l, st => by
    intro h hreads hval
    have ha : a ∉ l := fun ha => (nodup_cons.1 h.nodup).1 (mem_append_left _ ha)
    have hreads' := fun k hk => hreads k (mem_cons_of_mem a hk)
    have hrel := hreads a mem_cons_self
    generalize hsent : sent a = x at hrel
    generalize hgot : got a = y at hrel
    cases hrel with
    | none =>
      obtain ⟨st', hsteps, hawaits, hibuf, hval'⟩ := (h.skip hsent).steps henv hreads' fun k hk =>
        hval k (mem_cons_of_mem a hk)
      rw [attrTlvs_cons_none env.codec hsent]
      refine ⟨st', hsteps, hawaits, hibuf, fun k => ?_⟩
      rw [hval']
      by_cases hka : k = a
      · subst hka
        rw [if_neg ha, if_pos mem_cons_self, hgot, hval k mem_cons_self]
      · simp [hka]
    | some hread =>
      obtain ⟨st1, hlt, hstep, hawaits1, hibuf1, hval1⟩ := h.take henv hsent hread
      obtain ⟨st', hsteps, hawaits, hibuf, hval'⟩ := hawaits1.steps henv hreads' fun k hk => by
        have hka : k ≠ a := by
          rintro rfl
          exact ha hk
        rw [hval1, update_of_ne hka]
        exact hval k (mem_cons_of_mem a hk)
      rw [attrTlvs_cons_some env.codec hsent]
      refine ⟨st', .step hlt hstep hsteps, hawaits, ?_, fun k => ?_⟩
      · rw [hibuf, hibuf1, advance_advance, flatMap_cons, length_append]
      · rw [hval', hval1]
        by_cases hka : k = a
        · subst hka
          rw [if_neg ha, if_pos mem_cons_self, update_self, hgot]
        · simp [hka]

/-! ### Attributes that are refused -/

theorem bgpAttrMalformed_internal (henv : env.Internal) (args : BgpAttrParserArgs) (err : UpdateErr) (length : Nat)
    (st : ParseState σ) : ∃ st', bgpAttrMalformed env args err length st = some (.error, st') := by
  unfold bgpAttrMalformed
  simp only [run_bind (get_run _), henv.sort, ne_eq, reduceCtorEq, not_false_eq_true, if_true]
  exact ⟨_, rfl⟩

/-- The first attribute is refused behind its header. -/
theorem Awaits.refused (h : Awaits env sp sent endp rest (a :: l) st) (hsent : sent a = some v)
    (hbody : ∀ st : ParseState σ, (∃ rest, st.ibuf.unread = v.octets env.codec ++ rest) → ∀ startp n,
      ∃ st', bgpAttrBody env ((attrTlv env.codec a v).args startp) n st = some (some .error, st')) :
    st.ibuf.getp < endp ∧ ∃ st', bgpAttrStep env endp st = some (some .error, st') := by
  obtain ⟨hwf, hunread, hendp⟩ := h.head hsent
  have hge := (attrTlv env.codec a v).wire_length_ge
  refine ⟨by omega, ?_⟩
  rw [bgpAttrStep_tlv env hwf ⟨hwf.length, h.seen a mem_cons_self, hunread, (by omega : _ ≤ endp)⟩]
  exact hbody _ ⟨_, headed_unread hunread⟩ _ _

theorem bgpAttrNexthop_refused (henv : env.Internal) {args : BgpAttrParserArgs} {v : UInt32}
    (hv : martianNexthop v = true) (hlen : args.length = 4) (hunread : st.ibuf.unread = beBytes 4 v.toNat ++ rest) :
    ∃ st', bgpAttrNexthop env args st = some (.error, st') := by
  unfold bgpAttrNexthop
  rw [if_neg (not_not_intro hlen), run_bind (getIpv4_run hunread), if_pos hv]
  exact bgpAttrMalformed_internal henv ..

/-! ### The whole parser -/

theorem attrTlvs_length_le (sent : BgpAttr → Option AttrValue) (l : List BgpAttr) :
    3 * (attrTlvs codec sent l).length ≤ ((attrTlvs codec sent l).flatMap Tlv.wire).length := by
  induction attrTlvs codec sent l with
  | nil => simp
  | cons t ts ih =>
    have := t.wire_length_ge
    rw [flatMap_cons, length_append, length_cons]
    omega

theorem bgpAttrParse_refused {n size : Nat} {st1 st2 : ParseState σ}
    (hsteps : AttrSteps env (st.ibuf.getp + size) n st st1) (hn : n < size) (hlt : st1.ibuf.getp < st.ibuf.getp + size)
    (hstep : bgpAttrStep env (st.ibuf.getp + size) st1 = some (some .error, st2)) :
    bgpAttrParse env size st = some (.error, st2) := by
  unfold bgpAttrParse
  rw [run_bind (getp_run _), bind_run, hsteps.loop_returns hlt hstep hn]
  rfl

/-- The attributes without which an internal peer sends nothing, after which the checks have nothing to do. -/
theorem bgpAttrParse_accepted (henv : env.Internal) {n size : Nat} {st' : ParseState σ}
    (hsteps : AttrSteps env (st.ibuf.getp + size) n st st') (hn : n ≤ size)
    (hend : st'.ibuf.getp = st.ibuf.getp + size) (htar : st'.attr.has .tarpan = true)
    (horg : st'.attr.has .origin = true) (hasPath : st'.attr.has .asPath = true) (hasp : st'.attr.aspath.isSome)
    (hnextHop : st'.attr.has .nextHop = true) (hlp : st'.attr.has .localPref = true) :
    bgpAttrParse env size st = some (.proceed, st') := by
  have hmis : attrMissing env st'.attr = none := by
    simp [attrMissing, horg, hasPath, hnextHop, hlp]
  have hchk : bgpAttrCheck env st' = some (.proceed, st') := by
    unfold bgpAttrCheck
    rw [run_bind (get_run _), hmis]
    rfl
  have hmunge : bgpAttrMungeAs4Attrs env st' = some (.proceed, st') := by
    obtain ⟨aspath, h⟩ := isSome_iff_exists.1 hasp
    unfold bgpAttrMungeAs4Attrs
    rw [h]
    exact if_pos henv.as4
  have hpath : bgpAttrAspathCheck env st' = some (.proceed, st') := by
    unfold bgpAttrAspathCheck
    simp [bind_run, henv.sort, henv.changeLocalAs]
  have hfinish : bgpAttrFinish env st' = some (.proceed, st') := by
    unfold bgpAttrFinish
    rw [run_bind (get_run _), if_pos hasPath, bind_run, hmunge]
    exact hpath
  have hensure : ensureTarpan env st' = some ((), st') := by
    unfold ensureTarpan
    rw [run_bind (get_run _), if_pos htar]
    rfl
  unfold bgpAttrParse
  rw [run_bind (getp_run _), run_bind (hsteps.loop_ends hend hn)]
  dsimp only
  rw [run_bind (getp_run _), if_neg (not_not_intro hend), run_bind hensure, run_bind hchk]
  exact hfinish

end Receiver

/-! ## The round trip -/

section RoundTrip
variable {σ τ : Type} {env : PacketEnv σ} {env' : ParserEnv τ} {sp : Speaker σ} {sp' : Speaker τ} {attr : Attr}
  {p : Aspath} {msg : TarpanMsg}

/-- The values that are read from what is sent, where the receiver keeps the message `msg`. -/
def gotValue (env : PacketEnv σ) (sp : Speaker σ) (attr : Attr) (msg : TarpanMsg) : BgpAttr → Option AttrValue
  | .asPath => attr.aspath.map fun p => .path (readPath p)
  | .tarpan => some (.message msg)
  | a => sentValue env sp attr a

variable {content : TarpanAttr → Option TarpanMsg}

theorem value_of_has {a : BgpAttr} (h : attr.has a = true) : attr.value content a = attr.field content a := if_pos h

variable {α : Type} {R : α → α → Prop} {x : Option α}

theorem optionRel_self (h : ∀ v, x = some v → R v v) : Option.Rel R x x := by
  cases x with
  | none => exact .none
  | some v => exact .some (h v rfl)

variable {c : Bool}

theorem optionRel_guard {v : α} (h : R v v) :
    Option.Rel R (if c then some v else none) (if c then some v else none) := by
  cases c with
  | false => exact .none
  | true => exact .some h

/-- The octet behind the table lets a Tarpan attribute through. -/
def ParserEnv.LetsTarpan (env : ParserEnv σ) : Prop :=
  env.behindFlagsValues = 0 ∨ env.behindFlagsValues = bgpAttrFlagOptional ||| bgpAttrFlagTrans

/-- The attributes that are sent are accepted, where the next hop is an address that a host may have and the octet
behind the table lets a Tarpan attribute through. -/
theorem reads_sent (hattr : Sendable sp.store.content attr)
    (hreceived : ∃ tarpan sp'', tarpanReceived env'.tarpanActiveHandler env'.peer.as sp' (sentMessage env sp attr)
      env'.newTarpan = some (tarpan, sp'') ∧ sp''.store.content tarpan = some msg) {a : BgpAttr} (ha : a ∈ sentOrder)
    (hnext : a = .nextHop → martianNexthop attr.nexthop = false) (hbehind : a = .tarpan → env'.LetsTarpan) :
    Option.Rel (Reads env' sp' a) (sentValue env sp attr a) (gotValue env sp attr msg a) := by
  cases a with
  | asPath =>
    obtain ⟨p, hp, hnorm⟩ := hattr.aspath
    rw [sentValue_asPath hattr hp, gotValue, hp]
    exact .some (.asPath hnorm)
  | tarpan =>
    obtain ⟨tarpan, sp'', htar, hcontent⟩ := hreceived
    exact .some (.tarpan (hbehind rfl) htar hcontent)
  | origin => exact optionRel_guard (.origin hattr.origin_le)
  | nextHop => exact optionRel_guard (.nextHop (hnext rfl))
  | multiExitDisc => exact optionRel_guard (.multiExitDisc _)
  | localPref => exact .some (.localPref _)
  | atomicAggregate => exact optionRel_guard .atomicAggregate
  | aggregator =>
    refine optionRel_self fun v hv => ?_
    simp [sentValue, value, field] at hv
    obtain ⟨-, extra, -, rfl⟩ := hv
    exact .aggregator ..
  | communities =>
    refine optionRel_self fun v hv => ?_
    simp [sentValue, value, field] at hv
    obtain ⟨-, hhas, l, hl, rfl⟩ := hv
    obtain ⟨l', hl', hsort, hne⟩ := hattr.communities hhas
    cases hl.symm.trans hl'
    exact .communities hsort hne
  | originatorId =>
    refine optionRel_self fun v hv => ?_
    simp [sentValue] at hv
    obtain ⟨-, id, -, rfl⟩ := hv
    exact .originatorId id
  | clusterList => exact optionRel_guard (.clusterList _)
  | extCommunities =>
    refine optionRel_self fun v hv => ?_
    simp only [sentValue, value, ← ite_and] at hv
    split at hv
    · rename_i hhas
      obtain ⟨l, hl, hsize, hsort, hne⟩ := hattr.extCommunities hhas.2
      rw [field, hl] at hv
      cases hv
      exact .extCommunities hsize hsort hne
    · cases hv
  | mpReachNlri | mpUnreachNlri | as4Path | as4Aggregator | asPathlimit => exact absurd ha (by decide)

/-- `attr` goes from `sp` over the stream `s` to `sp'`: what is written is the sequence of its attributes, each well
formed, its size is returned, and from wherever it stands the receiver takes it for the same set. -/
def AttrsGoRound (env : PacketEnv σ) (sp : Speaker σ) (env' : ParserEnv τ) (sp' : Speaker τ) (attr : Attr) (s : Stream)
    (p : Option (Prefix .ip)) (prd : Option PrefixRd) (tag : Option (List UInt8)) : Prop :=
  ∃ s' n sp1, bgpPacketAttribute env .unicast attr sp s p prd tag = some (s', n, sp1) ∧
    s'.data = s.data ++ (sentTlvs env sp attr).flatMap Tlv.wire ∧ (∀ t ∈ sentTlvs env sp attr, t.WellFormed) ∧
    n = ((sentTlvs env sp attr).flatMap Tlv.wire).length ∧
    ∀ (ibuf : Stream) (rest : List UInt8), ibuf.unread = (sentTlvs env sp attr).flatMap Tlv.wire ++ rest →
      ∃ st', bgpAttrParse env' n { ibuf, speaker := sp' } = some (.proceed, st') ∧ st'.value = dueValue env sp attr

/-- Where it does so: no segment of the AS path is split more than once, and none but sequences at all; the next hop is
an address that a host may have; LOCAL_PREF and a Tarpan attribute are in the set, since they go out in any case;
communities that are in the set are configured to be sent; ORIGINATOR_ID and CLUSTER_LIST are only there where the
route is reflected, and with the own cluster id the list fits a length octet; the octet behind `attr_flags_values`
lets type 19 through; and the two Tarpan protocols and the store of the receiver give back the message. -/
structure GoesRound (env : PacketEnv σ) (sp : Speaker σ) (env' : ParserEnv τ) (sp' : Speaker τ) (attr : Attr) :
    Prop where
  segments : ∀ p, attr.aspath = some p → ∀ seg ∈ p, seg.as.length ≤ if seg.type = .asSequence then 510 else 255
  nexthop : martianNexthop attr.nexthop = false
  localPref : attr.has .localPref = true
  communities : attr.has .communities = true → env.afFlag .sendCommunity = true
  extCommunities : attr.has .extCommunities = true → env.afFlag .sendExtCommunity = true
  unreflected : env.reflects = false → attr.has .originatorId = false ∧ attr.has .clusterList = false
  cluster : env.reflects = true → ((attr.extra.bind (·.cluster)).getD []).length ≤ 62
  behind : env'.behindFlagsValues = 0 ∨ env'.behindFlagsValues = bgpAttrFlagOptional ||| bgpAttrFlagTrans
  message : ∃ m, sp'.store.InternsAs env'.newTarpan (sentMessage env sp attr) m ∧
    attr.value sp.store.content .tarpan =
      some (.message (handled env'.tarpanActiveHandler (·.packetReceivedHandler) env'.peer.as sp' m))

theorem ite_none_eq_self_iff : (if c then x else none) = x ↔ (x.isSome = true → c = true) := by
  cases c <;> cases x <;> simp

theorem ite_none_eq_ite_iff {y : Option α} :
    (if c then x else none) = (if c then x else y) ↔ (c = false → y = none) := by
  cases c <;> simp [eq_comm]

section
variable {a : BgpAttr} (h : attr.has a = true → (attr.field content a).isSome)
include h

theorem value_isSome_iff : (attr.value content a).isSome = true ↔ attr.has a = true := by
  unfold value
  split_ifs with hhas
  · simp [hhas, h hhas]
  · simp [hhas]

theorem value_eq_none_iff : attr.value content a = none ↔ attr.has a = false := by
  rw [← not_isSome_iff_eq_none, value_isSome_iff h, not_eq_true]

end

/-- What is read is what was to be sent, attribute by attribute. -/
theorem gotValue_eq_iff (hattr : Sendable sp.store.content attr) (hp : attr.aspath = some p) (hnorm : Normalised p)
    (hshort : ∀ seg ∈ p, seg.as.length ≤ 510) : (∀ a ∈ sentOrder, gotValue env sp attr msg a = dueValue env sp attr a) ↔
      (∀ seg ∈ p, seg.type ≠ .asSequence → seg.as.length ≤ asSegmentMax) ∧ attr.has .localPref = true ∧
      (attr.has .communities = true → env.afFlag .sendCommunity = true) ∧
      (attr.has .extCommunities = true → env.afFlag .sendExtCommunity = true) ∧
      (env.reflects = false → attr.has .originatorId = false ∧ attr.has .clusterList = false) ∧
      attr.value sp.store.content .tarpan = some (.message msg) := by
  have hpath : gotValue env sp attr msg .asPath = dueValue env sp attr .asPath ↔
      ∀ seg ∈ p, seg.type ≠ .asSequence → seg.as.length ≤ asSegmentMax := by
    rw [← readPath_eq_iff hnorm hshort, dueValue, value_of_has hattr.asPath, gotValue, field, hp]
    · simp
    all_goals rintro ⟨⟩
  have hlp : gotValue env sp attr msg .localPref = dueValue env sp attr .localPref ↔ attr.has .localPref = true := by
    change some (AttrValue.number attr.localPref) =
      (if attr.has .localPref then some (.number attr.localPref) else none) ↔ _
    simp
  have hcoms : gotValue env sp attr msg .communities = dueValue env sp attr .communities ↔
      (attr.has .communities = true → env.afFlag .sendCommunity = true) := by
    rw [← @value_isSome_iff attr sp.store.content]
    · exact ite_none_eq_self_iff
    · intro h
      obtain ⟨l, hl, -⟩ := hattr.communities h
      simp [field, hl]
  have hext : gotValue env sp attr msg .extCommunities = dueValue env sp attr .extCommunities ↔
      (attr.has .extCommunities = true → env.afFlag .sendExtCommunity = true) := by
    rw [← @value_isSome_iff attr sp.store.content]
    · exact ite_none_eq_self_iff
    · intro h
      obtain ⟨l, hl, -⟩ := hattr.extCommunities h
      rw [field, hl]
      rfl
  have horg : gotValue env sp attr msg .originatorId = dueValue env sp attr .originatorId ↔
      (env.reflects = false → attr.has .originatorId = false) := by
    refine ite_none_eq_ite_iff.trans (imp_congr_right fun _ => value_eq_none_iff fun h => ?_)
    rw [field, isSome_map]
    exact hattr.originatorId h
  have hclu : gotValue env sp attr msg .clusterList = dueValue env sp attr .clusterList ↔
      (env.reflects = false → attr.has .clusterList = false) := by
    refine ite_none_eq_ite_iff.trans (imp_congr_right fun _ => value_eq_none_iff fun h => ?_)
    rw [field, isSome_map]
    exact hattr.clusterList.1 h
  have htar : gotValue env sp attr msg .tarpan = dueValue env sp attr .tarpan ↔
      attr.value sp.store.content .tarpan = some (.message msg) := eq_comm
  simp only [sentOrder, forall_mem_cons, hpath, hlp, hcoms, hext, horg, hclu, htar]
  constructor
  · rintro ⟨-, hpath, -, -, hlp, -, -, hcoms, htar, horg, hclu, hext, -⟩
    exact ⟨hpath, hlp, hcoms, hext, fun h => ⟨horg h, hclu h⟩, htar⟩
  · rintro ⟨hpath, hlp, hcoms, hext, hunreflected, htar⟩
    exact ⟨rfl, hpath, rfl, rfl, hlp, rfl, rfl, hcoms, htar, fun h => (hunreflected h).1,
      fun h => (hunreflected h).2, hext, by simp⟩

/-! ### The receiver -/

theorem value_init (ibuf : Stream) (sp' : Speaker τ) (a : BgpAttr) :
    ParseState.value { ibuf, speaker := sp' } a = none := by
  refine if_neg ?_
  simp [has]

section Parse
variable (henv' : env'.Internal) (hattr : Sendable sp.store.content attr) (hcodec : env'.codec = env.codec)
  (hwf : ∀ t ∈ sentTlvs env sp attr, t.WellFormed)
  (hreceived : ∃ tarpan sp'', tarpanReceived env'.tarpanActiveHandler env'.peer.as sp' (sentMessage env sp attr)
    env'.newTarpan = some (tarpan, sp'') ∧ sp''.store.content tarpan = some msg)
  {ibuf : Stream} {rest : List UInt8} (hunread : ibuf.unread = (sentTlvs env sp attr).flatMap Tlv.wire ++ rest)
include hcodec hwf hunread in
theorem awaits_sent : Awaits env' sp' (sentValue env sp attr)
    (ibuf.getp + ((sentTlvs env sp attr).flatMap Tlv.wire).length) rest sentOrder { ibuf, speaker := sp' } where
  nodup := by decide
  wellFormed := by rwa [hcodec]
  extra := rfl
  speaker _ := rfl
  seen _ _ := rfl
  unread := by rwa [hcodec]
  endp_le := by rw [hcodec]; exact le_rfl
include henv' hattr hcodec hwf hreceived hunread

theorem bgpAttrParse_sent (hnext : martianNexthop attr.nexthop = false) (hbehind : env'.LetsTarpan) :
    ∃ st', bgpAttrParse env' ((sentTlvs env sp attr).flatMap Tlv.wire).length { ibuf, speaker := sp' } =
      some (.proceed, st') ∧
      ∀ a, st'.value a = if a ∈ sentOrder then gotValue env sp attr msg a else none := by
  have hawaits := @awaits_sent _ _ env env' sp sp' attr hcodec hwf ibuf rest hunread
  obtain ⟨st', hsteps, -, hibuf, hval⟩ := hawaits.steps henv'
    (fun a ha => reads_sent hattr hreceived ha (fun _ => hnext) fun _ => hbehind) fun a _ => value_init ibuf sp' a
  have hle := attrTlvs_length_le env'.codec (sentValue env sp attr) sentOrder
  rw [hcodec] at hsteps hibuf hle
  have hend : st'.ibuf.getp = ibuf.getp + ((sentTlvs env sp attr).flatMap Tlv.wire).length := by
    rw [hibuf]
    exact advance_getp (le_readable hunread)
  obtain ⟨p, hp, -⟩ := hattr.aspath
  have hpath : st'.value .asPath = some (.path (readPath p)) := by
    rw [hval, if_pos (by decide), gotValue, hp]
    rfl
  have hhas : ∀ a ∈ sentOrder, ∀ v, gotValue env sp attr msg a = some v → st'.attr.has a = true := by
    intro a ha v hv
    exact @has_of_value a v st'.attr st'.speaker.store.content ((hval a).trans ((if_pos ha).trans hv))
  refine ⟨st', bgpAttrParse_accepted henv' hsteps (by simp only [sentTlvs]; omega) hend ?_ ?_ ?_ ?_ ?_ ?_, fun a => ?_⟩
  · exact hhas .tarpan (by decide) _ rfl
  · exact hhas .origin (by decide) _ (value_of_has hattr.origin)
  · exact has_of_value hpath
  · have hfield := hpath
    rw [ParseState.value, value_of_has (has_of_value hpath), field] at hfield
    obtain ⟨q, hq, -⟩ := map_eq_some_iff.1 hfield
    rw [hq]
    rfl
  · exact hhas .nextHop (by decide) _ (value_of_has hattr.nextHop)
  · exact hhas .localPref (by decide) _ rfl
  · rw [hval, value_init]

omit hattr hreceived in
/-- The parser fails at the attribute `a` where it takes those before. -/
theorem bgpAttrParse_sent_refused {a : BgpAttr} {v : AttrValue} {pre post : List BgpAttr}
    (hord : sentOrder = pre ++ a :: post) (hsent : sentValue env sp attr a = some v)
    (hreads : ∀ k ∈ pre, Option.Rel (Reads env' sp' k) (sentValue env sp attr k) (gotValue env sp attr msg k))
    (hstep : ∀ endp st, Awaits env' sp' (sentValue env sp attr) endp rest (a :: post) st →
      st.ibuf.getp < endp ∧ ∃ st', bgpAttrStep env' endp st = some (some .error, st')) :
    ∃ st', bgpAttrParse env' ((sentTlvs env sp attr).flatMap Tlv.wire).length { ibuf, speaker := sp' } =
      some (.error, st') := by
  have hawaits := @awaits_sent _ _ env env' sp sp' attr hcodec hwf ibuf rest hunread
  rw [hord] at hawaits
  obtain ⟨st1, hsteps, hnext, -⟩ := hawaits.steps henv' hreads fun k _ => value_init ibuf sp' k
  obtain ⟨hlt, st', hst'⟩ := hstep _ _ hnext
  refine ⟨st', bgpAttrParse_refused hsteps ?_ hlt hst'⟩
  have hle := attrTlvs_length_le env.codec (sentValue env sp attr) sentOrder
  have hcnt : (attrTlvs env.codec (sentValue env sp attr) pre).length <
      (attrTlvs env.codec (sentValue env sp attr) sentOrder).length := by
    rw [hord, attrTlvs, attrTlvs, filterMap_append, length_append, filterMap_cons, hsent]
    simp
  rw [hcodec]
  simp only [sentTlvs]
  omega

/-- The next hop is refused, or the flags of the Tarpan attribute are. -/
theorem bgpAttrParse_sent_error (href : ¬ (martianNexthop attr.nexthop = false ∧ env'.LetsTarpan)) :
    ∃ st', bgpAttrParse env' ((sentTlvs env sp attr).flatMap Tlv.wire).length { ibuf, speaker := sp' } =
      some (.error, st') := by
  have hnext : sentValue env sp attr .nextHop = some (.number attr.nexthop) := value_of_has hattr.nextHop
  cases hmart : martianNexthop attr.nexthop with
  | true =>
    refine @bgpAttrParse_sent_refused _ _ env env' sp sp' attr msg henv' hcodec hwf ibuf rest hunread .nextHop _
      [.origin, .asPath] _ rfl hnext (fun k hk => ?_) fun endp st hawaits => ?_
    · exact reads_sent hattr hreceived (by revert k; decide) (by rintro rfl; exact absurd hk (by decide))
        (by rintro rfl; exact absurd hk (by decide))
    · refine hawaits.refused hnext ?_
      rintro st ⟨rest, hst⟩ startp n
      obtain ⟨st', hst'⟩ : ∃ st',
        bgpAttrHandle env' ((attrTlv env'.codec .nextHop (.number attr.nexthop)).args startp) st =
        some (.error, st') := bgpAttrNexthop_refused henv' hmart rfl hst
      exact bgpAttrBody_refuses (sentFlags_valid env' (by decide) _ startp) hst' (.inl rfl) n
  | false =>
    have hbehind : ¬env'.LetsTarpan := fun h => href ⟨hmart, h⟩
    refine @bgpAttrParse_sent_refused _ _ env env' sp sp' attr msg henv' hcodec hwf ibuf rest hunread .tarpan _
      [.origin, .asPath, .nextHop, .multiExitDisc, .localPref, .atomicAggregate, .aggregator, .communities] _ rfl rfl
      (fun k hk => ?_) fun endp st hawaits => ?_
    · exact reads_sent hattr hreceived (by revert k; decide) (fun _ => hmart)
        (by rintro rfl; exact absurd hk (by decide))
    · refine hawaits.refused rfl fun st _ startp n => ?_
      obtain ⟨st', hst'⟩ := bgpAttrMalformed_internal henv' _ .attrFlagErr _ st
      rw [bgpAttrBody, if_pos (eq_true_of_not_eq_false (mt (sentFlags_tarpan ..).1 hbehind)), bind_run, hst']
      exact ⟨st', rfl⟩

end Parse

section Iff
variable {s : Stream} (henv : env.Internal) (henv' : env'.Internal) (hcodec : env'.codec = env.codec)
  (hattr : Sendable sp.store.content attr) (hstore : sp'.store.Ok) (hfresh : sp'.store.Fresh env'.newTarpan)
  (hsize : s.size ≤ 4096) (hroom : (writtenOctets env sp attr).length ≤ s.writeable)
  (dest : Option (Prefix .ip)) (prd : Option PrefixRd) (tag : Option (List UInt8))
include hsize hroom in
theorem written_le : (writtenOctets env sp attr).length ≤ 4096 := hroom.trans ((Nat.sub_le ..).trans hsize)
include henv henv' hcodec hattr hstore hfresh hsize hroom

theorem AttrsGoRound.goesRound (h : AttrsGoRound env sp env' sp' attr s dest prd tag) :
    GoesRound env sp env' sp' attr := by
  obtain ⟨s'', n, sp2, hpkt', hdata, hwf, hn, hparse⟩ := h
  obtain ⟨p, hp, hnorm⟩ := hattr.aspath
  have hfits := written_le hsize hroom
  obtain ⟨s', sp1, hpkt, happ⟩ := bgpPacketAttribute_written henv hattr dest prd tag hroom
  obtain ⟨rfl, rfl, -⟩ : s' = s'' ∧ (writtenOctets env sp attr).length = n ∧ sp1 = sp2 := by
    rw [hpkt] at hpkt'
    simpa using hpkt'
  have hshort := (writtenOctets_eq_iff hattr hp hnorm hfits).1 (append_cancel_left (happ.data.symm.trans hdata))
  obtain ⟨tarpan, sp'', m, hreceived, hinterns, hcontent⟩ :=
    @tarpanReceived_content τ env'.tarpanActiveHandler env'.peer.as sp'
    env'.newTarpan (sentMessage env sp attr) hstore hfresh
  -- the attributes alone in a buffer
  let ibuf : Stream := .full ((sentTlvs env sp attr).flatMap Tlv.wire)
  have hunread : ibuf.unread = (sentTlvs env sp attr).flatMap Tlv.wire ++ [] := (append_nil _).symm
  obtain ⟨st', hst', hval⟩ := hparse ibuf [] hunread
  rw [hn] at hst'
  obtain ⟨hnext, hbehind⟩ : martianNexthop attr.nexthop = false ∧ env'.LetsTarpan := by
    by_contra href
    obtain ⟨st1, herr⟩ :=
      bgpAttrParse_sent_error henv' hattr hcodec hwf ⟨tarpan, sp'', hreceived, hcontent⟩ hunread href
    rw [herr] at hst'
    cases hst'
  obtain ⟨st1, hst1, hgot⟩ :=
    bgpAttrParse_sent henv' hattr hcodec hwf ⟨tarpan, sp'', hreceived, hcontent⟩ hunread hnext hbehind
  rw [hst1] at hst'
  cases hst'
  obtain ⟨hsets, hlp, hcoms, hext, hunreflected, htar⟩ := (gotValue_eq_iff hattr hp hnorm hshort).1 fun a ha => by
    rw [← hval, hgot, if_pos ha]
  refine ⟨fun q hq seg hseg => ?_, hnext, hlp, hcoms, hext, hunreflected,
    (sentTlvs_wellFormed_iff hfits).1 hwf, hbehind, m, hinterns, htar⟩
  rw [hp] at hq
  cases hq
  split_ifs with htype
  · exact hshort seg hseg
  · exact hsets seg hseg htype

theorem GoesRound.attrsGoRound (h : GoesRound env sp env' sp' attr) :
    AttrsGoRound env sp env' sp' attr s dest prd tag := by
  obtain ⟨p, hp, hnorm⟩ := hattr.aspath
  have hfits := written_le hsize hroom
  have hshort : ∀ seg ∈ p, seg.as.length ≤ 510 := by
    intro seg hseg
    have := h.segments p hp seg hseg
    split at this <;> omega
  have hsets : ∀ seg ∈ p, seg.type ≠ .asSequence → seg.as.length ≤ asSegmentMax := by
    intro seg hseg htype
    have := h.segments p hp seg hseg
    rwa [if_neg htype] at this
  obtain ⟨s', sp1, hpkt, happ⟩ := bgpPacketAttribute_written henv hattr dest prd tag hroom
  have hoct := (writtenOctets_eq_iff hattr hp hnorm hfits).2 hshort
  have hwf := (sentTlvs_wellFormed_iff hfits).2 h.cluster
  rw [hoct] at hpkt happ
  obtain ⟨tarpan, sp'', m, hreceived, hinterns, hcontent⟩ :=
    @tarpanReceived_content τ env'.tarpanActiveHandler env'.peer.as sp'
    env'.newTarpan (sentMessage env sp attr) hstore hfresh
  obtain ⟨m', hinterns', hmsg⟩ := h.message
  rw [hinterns'.unique hstore hinterns] at hmsg
  have hdue := (gotValue_eq_iff hattr hp hnorm hshort).2
    ⟨hsets, h.localPref, h.communities, h.extCommunities, h.unreflected, hmsg⟩
  refine ⟨s', _, sp1, hpkt, happ.data, hwf, rfl, fun ibuf rest hunread => ?_⟩
  obtain ⟨st', hst', hgot⟩ :=
    bgpAttrParse_sent henv' hattr hcodec hwf ⟨tarpan, sp'', hreceived, hcontent⟩ hunread h.nexthop h.behind
  refine ⟨st', hst', funext fun a => ?_⟩
  rw [hgot]
  by_cases ha : a ∈ sentOrder
  · rw [if_pos ha, hdue a ha]
  · have hnone : attr.value sp.store.content a = none := if_neg fun hhas => ha (hattr.only a hhas)
    cases a <;> first | exact hnone.symm | exact absurd (by decide) ha

/-- An attribute set goes from internal peer to internal peer exactly where the condition holds. -/
theorem attrsGoRound_iff : AttrsGoRound env sp env' sp' attr s dest prd tag ↔ GoesRound env sp env' sp' attr :=
  ⟨fun h => h.goesRound henv henv' hcodec hattr hstore hfresh hsize hroom dest prd tag,
    fun h => h.attrsGoRound henv henv' hcodec hattr hstore hfresh hsize hroom dest prd tag⟩

end Iff

/-! ### A reflected route -/

/-- An internal peer, with which the capability for four-octet AS numbers was exchanged. -/
def internalPeer : Peer :=
  { as := 65000, sort := .ibgp, remoteId := 2, suRemote := .sin 2, cap := fun c => c = .as4Rcv }

/-- A route reflector that sends communities; it has no Tarpan protocol. -/
def reflectorEnv : PacketEnv Unit where
  peer := internalPeer
  localAs := 65000
  afFlag f := f = .sendCommunity
  fromPeer := some internalPeer
  codec := .plain
  newTarpan := ⟨32, some 8192⟩

/-- The attributes of the route that it reflects, with the CLUSTER_LIST `cluster`. -/
def reflectedAttr (cluster : List UInt32) : Attr where
  aspath := some [assegmentWith .asSequence [65001, 65002]]
  community := some [6553700]
  tarpan := some ⟨16, some 4096⟩
  extra := some { originatorId := 7, cluster := some cluster }
  flag := ([.origin, .asPath, .nextHop, .localPref, .communities, .tarpan, .originatorId, .clusterList].map
    BgpAttr.flagBit).foldl (· ||| ·) 0
  nexthop := 0x0a000001
  localPref := 100

def reflectorSpeaker : Speaker Unit where
  bgp := { as := 65000, routerId := 1 }
  state := ()
  store := ⟨.empty, fun m => if m = 4096 then some tarpanMessageNew else none⟩

def clientEnv : ParserEnv Unit where
  peer := internalPeer
  codec := .plain
  tarpanActiveHandler := none
  newTarpan := ⟨16, some 4096⟩
  behindFlagsValues := 0

def clientSpeaker : Speaker Unit := ⟨{ as := 65000, routerId := 2 }, (), .empty⟩

theorem reflectedAttr_has (cluster : List UInt32) (a : BgpAttr) : (reflectedAttr cluster).has a =
    decide (a ∈ [BgpAttr.origin, .asPath, .nextHop, .localPref, .communities, .tarpan, .originatorId,
      .clusterList]) := by
  have h : (reflectedAttr []).has a =
      decide (a ∈ [BgpAttr.origin, .asPath, .nextHop, .localPref, .communities, .tarpan, .originatorId,
        .clusterList]) := by
    cases a <;> decide
  exact h

theorem reflectedAttr_sendable (cluster : List UInt32) :
    Sendable reflectorSpeaker.store.content (reflectedAttr cluster) where
  origin := reflectedAttr_has ..
  origin_le := .inl rfl
  asPath := reflectedAttr_has ..
  aspath := ⟨_, rfl, normalised_singleton_sequence (by simp) (by simp)⟩
  nextHop := reflectedAttr_has ..
  only a ha := by
    rw [reflectedAttr_has] at ha
    cases a <;> first | decide | cases ha
  aggregator _ := rfl
  originatorId _ := rfl
  communities _ := ⟨_, rfl, by decide, by simp⟩
  clusterList := ⟨fun _ => rfl, fun _ => reflectedAttr_has ..⟩
  extCommunities h := by
    rw [reflectedAttr_has] at h
    cases h
  tarpan _ := ⟨_, _, rfl, rfl⟩
  transit := rfl

theorem internalPeer_packet : reflectorEnv.Internal := ⟨rfl, rfl, rfl⟩
theorem clientEnv_internal : clientEnv.Internal := ⟨rfl, rfl, rfl⟩

theorem clientSpeaker_fresh : clientSpeaker.store.Fresh clientEnv.newTarpan :=
  ⟨fun _ hx => absurd hx (Nat.lt_irrefl 0), _, rfl, rfl⟩

/-- A route with one cluster id comes to the client with two. -/
theorem attrsGoRound_reflected : AttrsGoRound reflectorEnv reflectorSpeaker clientEnv clientSpeaker (reflectedAttr [3])
    (streamNew 4096) none none none := by
  have hroom : (writtenOctets reflectorEnv reflectorSpeaker (reflectedAttr [3])).length ≤
      (streamNew 4096).writeable := by
    decide +kernel
  refine (attrsGoRound_iff internalPeer_packet clientEnv_internal rfl (reflectedAttr_sendable [3]) TarpanStore.empty_ok
    clientSpeaker_fresh le_rfl hroom none none none).2 ?_
  exact {
    segments := by
      rintro p ⟨⟩ seg hseg
      rw [mem_singleton.1 hseg]
      decide
    nexthop := by decide
    localPref := reflectedAttr_has ..
    communities := fun _ => rfl
    extCommunities := fun h => by
      cases h
    unreflected := fun h => absurd h (by decide)
    cluster := fun _ => by decide
    behind := .inl rfl
    message := ⟨_, .inl ⟨fun _ hx => absurd hx (Nat.lt_irrefl 0), rfl⟩, rfl⟩ }

/-- With 63 cluster ids the length of the new list does not fit its octet. -/
theorem not_attrsGoRound_reflected : ¬ AttrsGoRound reflectorEnv reflectorSpeaker clientEnv clientSpeaker
    (reflectedAttr (List.replicate 63 3)) (streamNew 4096) none none none := by
  intro h
  have hroom : (writtenOctets reflectorEnv reflectorSpeaker (reflectedAttr (List.replicate 63 3))).length ≤
      (streamNew 4096).writeable := by decide +kernel
  have := (h.goesRound internalPeer_packet clientEnv_internal rfl (reflectedAttr_sendable _) TarpanStore.empty_ok
    clientSpeaker_fresh le_rfl hroom none none none).cluster (by decide)
  exact absurd this (by decide)

end RoundTrip

end Tarpan.Bgpd
