/-
What `bgp_packet_attribute` changes besides the stream. For most peers the AS path is copied; for the others the path of
the table is sent, and `aspath_delete_confed_seq` takes its confederation segments out in place where AS4_PATH is sent.
-/
import Tarpan.Bgpd.Attr.Encode

namespace Tarpan.Bgpd

open Lib Function Option List

/-! ## AS paths in memory -/

/-- `struct aspath`. -/
structure PathObject where
  segments : Aspath
  str : String

variable {σ : Type} {afi : Afi} (env : PacketEnv σ) (makeStr : Aspath → String)

/-- `aspath_dup` is called for the peer. -/
def PacketEnv.CopiesPath (aspath : Aspath) : Prop :=
  env.peer.sort = .ebgp ∧ (env.afFlag .asPathUnchanged = false ∨ aspath = []) ∧ env.afFlag .rserverClient = false ∨
    env.peer.sort = .confed

instance PacketEnv.decidableCopiesPath (aspath : Aspath) : Decidable (env.CopiesPath aspath) :=
  inferInstanceAs (Decidable (_ ∨ _))

/-- The path begins with an AS_CONFED_SEQUENCE. -/
def StartsConfed (aspath : Aspath) : Prop := aspath.head?.map (·.type) = some .asConfedSequence

instance decidableStartsConfed (aspath : Aspath) : Decidable (StartsConfed aspath) :=
  inferInstanceAs (Decidable (_ = _))

/-- The path at `a` is sent as AS4_PATH, and `aspath_delete_confed_seq` frees its first segments before. -/
def as4PathAt (mem : Addr → PathObject) (a : Addr) : Addr → PathObject :=
  if !env.use32bit && aspathHasAs4 (mem a).segments && StartsConfed (mem a).segments then
    update mem a ⟨aspathDeleteConfedSeq (mem a).segments, makeStr (aspathDeleteConfedSeq (mem a).segments)⟩
  else mem

/-- The AS paths in memory after `bgp_packet_attribute`; `copy` is the address that `aspath_dup` returns. -/
def packetPaths (mem : Addr → PathObject) (aspath copy : Addr) : Option (Addr → PathObject) :=
  (packetAspath env (mem aspath).segments).map fun sent =>
    if env.CopiesPath (mem aspath).segments then as4PathAt env makeStr (update mem copy ⟨sent, makeStr sent⟩) copy
    else as4PathAt env makeStr mem aspath

theorem aspathDeleteConfedSeq_ne {aspath : Aspath} (h : StartsConfed aspath) :
    aspathDeleteConfedSeq aspath ≠ aspath := by
  cases aspath with
  | nil => cases h
  | cons seg rest =>
    have htype : seg.type = .asConfedSequence := some.inj h
    intro heq
    rw [aspathDeleteConfedSeq, if_neg (not_not_intro htype), dropWhile_cons, if_pos (by rw [htype]; rfl)] at heq
    have hle := (dropWhile_suffix (l := rest) fun seg : Assegment => seg.type.isConfed).length_le
    rw [heq, length_cons] at hle
    omega

variable {env makeStr} {mem mem' : Addr → PathObject} {a aspath copy : Addr}

theorem as4PathAt_of_ne (h : a ≠ copy) : as4PathAt env makeStr mem copy a = mem a := by
  unfold as4PathAt
  split
  · exact update_of_ne h _ _
  · rfl

theorem as4PathAt_eq_iff : as4PathAt env makeStr mem a a = mem a ↔ env.use32bit = true ∨
    aspathHasAs4 (mem a).segments = false ∨ ¬ StartsConfed (mem a).segments := by
  unfold as4PathAt
  split_ifs with h
  · simp only [Bool.and_eq_true, Bool.not_eq_true', decide_eq_true_eq] at h
    refine iff_of_false (fun heq => ?_) (by simp [h])
    rw [update_self] at heq
    exact aspathDeleteConfedSeq_ne h.2 (congrArg PathObject.segments heq)
  · refine iff_of_true rfl ?_
    by_contra hnot
    exact h (by simpa [and_assoc] using hnot)

/-- The objects other than the copy stay, but for a path of the table that is sent itself and loses segments. -/
theorem packetPaths_eq_iff (hcopy : aspath ≠ copy) (h : packetPaths env makeStr mem aspath copy = some mem') :
    (∀ a, a ≠ copy → mem' a = mem a) ↔ env.CopiesPath (mem aspath).segments ∨ env.use32bit = true ∨
      aspathHasAs4 (mem aspath).segments = false ∨ ¬ StartsConfed (mem aspath).segments := by
  obtain ⟨sent, hsent, rfl⟩ := map_eq_some_iff.1 h
  by_cases hcopies : env.CopiesPath (mem aspath).segments
  · refine iff_of_true (fun a ha => ?_) (.inl hcopies)
    rw [if_pos hcopies, as4PathAt_of_ne ha, update_of_ne ha]
  rw [if_neg hcopies, or_iff_right hcopies, ← @as4PathAt_eq_iff σ env makeStr]
  refine ⟨fun hsame => hsame aspath hcopy, fun hsame a _ => ?_⟩
  by_cases ha : a = aspath
  · rw [ha, hsame]
  · exact as4PathAt_of_ne ha

/-! ## Tarpan messages -/

/-- The table of interned attributes stays, and what the messages say but that of the new attribute `t`. -/
def KeepsOthers (t : TarpanAttr) (s s' : TarpanStore) : Prop :=
  s'.table = s.table ∧ ∀ x : TarpanAttr, x.message ≠ t.message → s'.content x = s.content x

variable {t : TarpanAttr}

theorem KeepsOthers.place {s s' : TarpanStore} (h : KeepsOthers t s s') (msg : TarpanMsg) :
    KeepsOthers t s (s'.place t msg) :=
  ⟨(TarpanStore.place_table ..).trans h.1, fun x hx => (TarpanStore.place_content_of_ne hx).trans (h.2 x hx)⟩

theorem keepsOthers_rfl {s : TarpanStore} : KeepsOthers t s s := ⟨rfl, fun _ _ => rfl⟩

variable {sp sp' : Speaker σ} {attr : Attr} {s : Stream}

theorem callHandler_keepsOthers {f : TarpanProtocolHandler σ → UInt32 → Bgp → σ → TarpanMsg → σ × TarpanMsg}
    {handler : Option (TarpanProtocolHandler σ)} {peerAs : UInt32} {store : TarpanStore}
    (hst : KeepsOthers t store sp.store) (h : callHandler handler peerAs f sp t = some sp') :
    KeepsOthers t store sp'.store := by
  cases handler with
  | none =>
    cases h
    exact hst
  | some handler =>
    obtain ⟨msg, -, rfl⟩ := map_eq_some_iff.1 h
    exact hst.place _

theorem tarpanPut_keepsOthers {r : Stream × Speaker σ} (h : tarpanPut env attr sp s = some r) :
    KeepsOthers env.newTarpan sp.store r.2.store := by
  obtain ⟨tarp, -, h⟩ := bind_eq_some_iff.1 h
  obtain ⟨⟨octets, sp1⟩, hpkt, h⟩ := bind_eq_some_iff.1 h
  obtain ⟨s1, -, h⟩ := bind_eq_some_iff.1 h
  obtain ⟨s2, -, h⟩ := bind_eq_some_iff.1 h
  cases h
  cases tarp with
  | none =>
    obtain ⟨sp2, hcall, hpkt⟩ := bind_eq_some_iff.1 hpkt
    obtain ⟨msg, -, hpkt⟩ := bind_eq_some_iff.1 hpkt
    cases hpkt
    exact callHandler_keepsOthers (keepsOthers_rfl.place _) hcall
  | some tarp =>
    obtain ⟨sp2, hupd, hpkt⟩ := bind_eq_some_iff.1 hpkt
    obtain ⟨msg, -, hpkt⟩ := bind_eq_some_iff.1 hpkt
    cases hpkt
    obtain ⟨store, hcopy, hcall⟩ := bind_eq_some_iff.1 hupd
    refine callHandler_keepsOthers ?_ hcall
    unfold tarpanCopy at hcopy
    split at hcopy
    · cases hcopy
      exact keepsOthers_rfl
    · obtain ⟨msg, -, rfl⟩ := map_eq_some_iff.1 hcopy
      exact keepsOthers_rfl.place _

/-! ## The frame -/

/-- A call that returns has made the path that is sent and written the Tarpan attribute. -/
theorem bgpPacketAttribute_parts {safi : Safi} {p : Option (Prefix afi)} {prd : Option PrefixRd}
    {tag : Option (List UInt8)} {r : Stream × Nat × Speaker σ}
    (h : bgpPacketAttribute env safi attr sp s p prd tag = some r) : ∃ path sent s1 s2, attr.aspath = some path ∧
      packetAspath env path = some sent ∧ tarpanPut env attr sp s1 = some (s2, r.2.2) := by
  simp only [bgpPacketAttribute, bind_eq_bind, bind_eq_some_iff] at h
  obtain ⟨_, -, _, -, path, hpath, sent, hsent, _, -, _, -, _, -, _, -, _, -, _, -, s1, -, ⟨s2, sp1⟩, htar, h⟩ := h
  obtain ⟨_, -, _, -, _, -, _, -, _, -, h⟩ := h
  cases h
  exact ⟨path, sent, s1, s2, hpath, hsent, htar⟩

/-- Nothing that is shared has changed: the AS paths other than the copy, the table of Tarpan attributes, and the
messages of those that are interned. -/
structure Unchanged (copy : Addr) (mem mem' : Addr → PathObject) (s s' : TarpanStore) : Prop where
  paths : ∀ a, a ≠ copy → mem' a = mem a
  table : s'.table = s.table
  messages : ∀ x, s.Live x → s'.content x = s.content x

/-- A call that returns leaves what is shared unchanged, exactly where the path is copied, no AS4_PATH is sent, or the
path does not begin with an AS_CONFED_SEQUENCE. -/
theorem bgpPacketAttribute_unchanged_iff (env : PacketEnv σ) (makeStr : Aspath → String) (safi : Safi) (attr : Attr)
    (sp : Speaker σ) (s : Stream) (p : Option (Prefix afi)) (prd : Option PrefixRd) (tag : Option (List UInt8))
    (mem : Addr → PathObject) (aspath copy : Addr) (r : Stream × Nat × Speaker σ)
    (hrun : bgpPacketAttribute env safi attr sp s p prd tag = some r)
    (haspath : attr.aspath = some (mem aspath).segments)
    (hcopy : aspath ≠ copy) (hs : sp.store.Ok) (hfresh : sp.store.Fresh env.newTarpan) :
    (∃ mem', packetPaths env makeStr mem aspath copy = some mem' ∧ Unchanged copy mem mem' sp.store r.2.2.store) ↔
      env.CopiesPath (mem aspath).segments ∨ env.use32bit = true ∨
        aspathHasAs4 (mem aspath).segments = false ∨ ¬ StartsConfed (mem aspath).segments := by
  obtain ⟨path, sent, s1, s2, hpath, hsent, htar⟩ := bgpPacketAttribute_parts hrun
  obtain ⟨htab, hcontent⟩ := tarpanPut_keepsOthers htar
  cases hpath.symm.trans haspath
  obtain ⟨mem', hmem'⟩ : ∃ mem', packetPaths env makeStr mem aspath copy = some mem' :=
    ⟨_, map_eq_some_iff.2 ⟨sent, hsent, rfl⟩⟩
  rw [← packetPaths_eq_iff hcopy hmem']
  constructor
  · rintro ⟨mem1, hmem1, hsame⟩
    cases hmem'.symm.trans hmem1
    exact hsame.paths
  · intro hpaths
    exact ⟨mem', hmem', hpaths, htab, fun x hx => hcontent x (hfresh.message_ne hs hx)⟩

/-- A peer without the capability for four-octet AS numbers. -/
def oldPeerEnv (sort : PeerSort) : PacketEnv Unit where
  peer := { as := 65000, sort, remoteId := 2, suRemote := .sin 2 }
  localAs := 65000
  codec := .plain
  newTarpan := ⟨32, some 8192⟩

/-- A path through a confederation and an AS with a number of four octets. -/
def confedPath : Aspath := [assegmentWith .asConfedSequence [65100], assegmentWith .asSequence [70000]]

/-- The call for the peer, with the path at address 1 and the copy at 2. -/
def confedRun (sort : PeerSort) : Option (Stream × Nat × Speaker Unit) :=
  bgpPacketAttribute (oldPeerEnv sort) .unicast { aspath := some confedPath, flag := BgpAttr.asPath.flagBit }
    ⟨{ as := 65000, routerId := 1 }, (), .empty⟩ (streamNew 4096) (none : Option (Prefix .ip)) none none

/-- An external peer gets a copy. -/
theorem bgpPacketAttribute_unchanged_external : ∃ mem' : Addr → PathObject, ∃ r, confedRun .ebgp = some r ∧
    Unchanged 2 (fun _ => ⟨confedPath, "(65100) 70000"⟩) mem' .empty r.2.2.store := by
  have hrun : (confedRun .ebgp).isSome = true := by decide +kernel
  obtain ⟨r, hr⟩ := isSome_iff_exists.1 hrun
  obtain ⟨mem', -, h⟩ := (bgpPacketAttribute_unchanged_iff (oldPeerEnv .ebgp) (fun _ => "") _ _ _ _ _ _ _
    (fun _ => ⟨confedPath, "(65100) 70000"⟩) 1 2 r hr rfl (by decide) TarpanStore.empty_ok
    ⟨fun _ hx => absurd hx (Nat.lt_irrefl 0), _, rfl, rfl⟩).2 (by decide)
  exact ⟨mem', r, hr, h⟩

/-- For an internal peer the path of the table loses the confederation. -/
theorem packetPaths_internal : (confedRun .ibgp).isSome ∧ ((packetPaths (oldPeerEnv .ibgp) (fun _ => "70000")
    (fun _ => ⟨confedPath, "(65100) 70000"⟩) 1 2).map fun mem => ((mem 1).segments.map (·.as), (mem 1).str)) =
      some ([[70000]], "70000") := by
  decide +kernel

end Tarpan.Bgpd
